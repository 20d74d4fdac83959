import BoilerplateApp.Proof.Format

/-!
# Memos as strings

`transaction_utils_format_memo` copies a memo and puts a NUL behind it. It has its own limit, which
the parser does not keep to, and a memo may contain a NUL itself, which is ASCII: a reader of the
string then sees the memo up to there.
-/

namespace BoilerplateApp

/-- The bytes of the memo of a transaction with pointers into `raw`. -/
def memoOf (raw : List UInt8) (tx : Transaction) : List UInt8 :=
  (raw.drop tx.memo).take tx.memoLen.toNat

/-- Formatting the memo of what was parsed from `raw`, into `dst_len = MAX_MEMO_LEN + 1` bytes. -/
def formatParsedMemo (raw : List UInt8) (tx : Transaction) (dst : Nat → UInt8) :
    Bool × (Nat → UInt8) :=
  transactionUtilsFormatMemo (fun i => raw.getD (tx.memo + i) 0) tx.memoLen dst
    (UInt64.ofNat (maxMemoLen + 1))

/-- Whatever is parsed from `raw`, its memo is formatted, and read back in full. -/
def ShowsMemo (sdk : Sdk) (raw : List UInt8) : Prop :=
  ∀ tx tx' dst, DeserializesTo sdk raw tx tx' → ∃ dst', formatParsedMemo raw tx' dst = (true, dst')
    ∧ Region.IsString 0 dst' (memoOf raw tx')

section Memo

variable {sdk : Sdk} {raw : List UInt8} {tx : Transaction}

theorem Parses.read_memo (h : Parses raw tx) :
    Region.read (fun i => raw.getD (tx.memo + i) 0) 0 tx.memoLen.toNat = memoOf raw tx := by
  have htotal := h.total
  have hfits : tx.memo + tx.memoLen.toNat ≤ raw.length := by
    rw [h.fields]
    simp only [fieldsOf, toNat_lengthField]
    omega
  rw [memoOf, ← Region.read_getD hfits 0]
  simp [Region.read]

theorem Parses.length_memoOf (h : Parses raw tx) : (memoOf raw tx).length = tx.memoLen.toNat := by
  rw [← h.read_memo, Region.length_read]

theorem Parses.formatParsedMemo_eq (h : Parses raw tx) (hmemo : tx.memoLen.toNat ≤ maxMemoLen)
    (dst : Nat → UInt8) :
    formatParsedMemo raw tx dst = (true, Region.store dst 0 (memoOf raw tx ++ [0])) := by
  have hmax : maxMemoLen = 465 := rfl
  have hroom : ¬(tx.memoLen.toNat > maxMemoLen
      ∨ UInt64.ofNat (maxMemoLen + 1) < tx.memoLen + 1) := by
    rw [UInt64.lt_iff_toNat_lt, UInt64.toNat_ofNat', UInt64.toNat_add]
    simp only [UInt64.toNat_one]
    omega
  have hstore := Region.store_append dst 0 (memoOf raw tx) [0]
  rw [Nat.zero_add, h.length_memoOf] at hstore
  rw [formatParsedMemo, transactionUtilsFormatMemo, if_neg hroom, h.read_memo, ← hstore]

/-- **How a memo is shown.** One within `MAX_MEMO_LEN` is copied in full, and reads as a string up
to its first NUL: as the whole memo exactly when it has none. -/
theorem formatMemo_spec (hsdk : sdk.ReadLaws) {tx₀ : Transaction}
    (hok : DeserializesTo sdk raw tx₀ tx) (hmemo : tx.memoLen.toNat ≤ maxMemoLen)
    (dst : Nat → UInt8) :
    ∃ dst', formatParsedMemo raw tx dst = (true, dst')
      ∧ (memoOf raw tx).length = tx.memoLen.toNat
      ∧ Region.read dst' 0 tx.memoLen.toNat = memoOf raw tx ∧ dst' tx.memoLen.toNat = 0
      ∧ Region.IsString 0 dst' ((memoOf raw tx).takeWhile (· ≠ 0))
      ∧ (Region.IsString 0 dst' (memoOf raw tx) ↔ 0 ∉ memoOf raw tx) := by
  have hparses := (deserializesTo_iff hsdk raw tx₀ tx).mp hok
  have hlen := hparses.length_memoOf
  refine ⟨_, hparses.formatParsedMemo_eq hmemo dst, hlen, ?_, ?_,
    Region.isString_takeWhile 0 dst _, ?_⟩
  · rw [← hlen]
    exact Region.read_store_append dst _ _
  · rw [← hlen, Region.store_getElem dst _ (by simp), List.getElem_append_right (le_refl _)]
    simp
  · constructor
    · exact fun h => h.unmarked
    · exact fun h => Region.isString_store h dst []

end Memo

theorem layout_nulMemo : Layout (List.replicate 36 0 ++ [1, 0]) (List.replicate 8 0)
    (List.replicate 20 0) (List.replicate 8 0) [1] [0] :=
  ⟨by decide, by decide, by decide, by decide, by decide, isAscii_iff.mp (by decide)⟩

/-- A memo of one NUL reads as the empty string. -/
theorem not_showsMemo_nul : ¬ShowsMemo (Reference.sdk 64) (List.replicate 36 0 ++ [1, 0]) := by
  intro h
  have hok := (deserializesTo_iff (Reference.readLaws (Or.inr rfl)) _ .zero _).mpr
    (layout_nulMemo.parses (by decide))
  obtain ⟨dst', -, hstring⟩ := h _ _ (fun _ => 0) hok
  have hmemo : memoOf (List.replicate 36 0 ++ [1, 0]) (fieldsOf (List.replicate 36 0 ++ [1, 0]))
      = [0] := layout_nulMemo.holds.memo_eq
  rw [hmemo] at hstring
  exact hstring.unmarked (by decide)

/-- The transaction of the reference device, whose memo has no NUL. -/
theorem formatMemo_spec_tx :
    ∃ dst', formatParsedMemo Reference.tx (fieldsOf Reference.tx) (fun _ => 1) = (true, dst')
      ∧ Region.IsString 0 dst' (memoOf Reference.tx (fieldsOf Reference.tx)) := by
  have hparses : Parses Reference.tx (fieldsOf Reference.tx) :=
    ⟨by decide, by decide, rfl, by decide +kernel, isAscii_iff.mp (by decide +kernel)⟩
  obtain ⟨dst', hformat, -, -, -, -, hiff⟩ := formatMemo_spec (Reference.readLaws (Or.inr rfl))
    ((deserializesTo_iff (Reference.readLaws (Or.inr rfl)) _ .zero _).mpr hparses)
    (by decide +kernel) fun _ => 1
  exact ⟨dst', hformat, hiff.mpr (by decide +kernel)⟩

end BoilerplateApp
