import BoilerplateApp.Proof.ClientReader

/-!
# Two parsers for one format

The client can read transactions back, with a parser of its own. Both parsers take the documented
layout, and this module says where they part: the client does not look at what comes behind a
transaction and knows no limit, and the device takes a header alone for a transaction. Where both
accept, they read the same.
-/

namespace BoilerplateApp.Client

open Endian CompactSize Reading

/-! ### What the client reads -/

theorem takes_readUint :
    Takes (readUint 64 .be) fun taken n => taken.length = 8 ∧ n = decodeBE taken :=
  takes_next decodeBE

theorem takes_read (size : Nat) :
    Takes (read size) fun taken v => taken.length = size ∧ v = taken :=
  takes_next id

theorem takes_readVarint :
    Takes (readVarint none) fun taken n => decode taken = some (n, taken.length) := by
  intro s v s' hrun
  cases hdecode : decode s with
  | none =>
      obtain ⟨e, herror, -⟩ := readVarint_of_decode_none hdecode
      cases hrun.symm.trans herror
  | some field =>
      obtain ⟨n, used⟩ := field
      obtain ⟨rfl, rfl⟩ :=
        Prod.mk.inj (Except.ok.inj (hrun.symm.trans (readVarint_of_decode hdecode)))
      refine ⟨s.take used, (List.take_append_drop used s).symm, ?_⟩
      dsimp only
      rw [List.length_take_of_le (decode_length hdecode).2]
      exact decode_take hdecode

theorem decodeAscii_ok {memo : List UInt8} {text : List Char} (h : decodeAscii memo = .ok text) :
    (∀ b ∈ memo, b ≤ 0x7F) ∧ encodeAscii text = .ok memo := by
  rw [decodeAscii] at h
  split at h
  · next hall =>
      have hascii : ∀ b ∈ memo, b ≤ 0x7F :=
        fun b hb => of_decide_eq_true (List.all_eq_true.mp hall b hb)
      obtain rfl := Except.ok.inj h
      exact ⟨hascii, encodeAscii_map hascii⟩
  · cases h

theorem init_ok {nonce value : Nat} {toAddr memo : List UInt8} {text : List Char} {t : Transaction}
    (hmemo : encodeAscii text = .ok memo)
    (h : Transaction.init nonce (.bytes toAddr) value text = .ok t) :
    t.nonce = nonce ∧ t.toAddr = toAddr ∧ t.value = value ∧ t.memo = memo := by
  unfold Transaction.init at h
  dsimp only [To.toBytes] at h
  split at h
  · cases h
  · next memo' hmemo' =>
      obtain rfl := Except.ok.inj (hmemo.symm.trans hmemo')
      split at h
      · split at h
        · split at h
          · obtain rfl := Except.ok.inj h
            exact ⟨rfl, rfl, rfl, rfl⟩
          · cases h
        · cases h
      · cases h

/-- `from_bytes` takes a layout, with the fields it then holds. -/
theorem takes_fromBuf : Takes Transaction.fromBuf fun taken t =>
    ∃ varint, Layout taken (encodeBE 8 t.nonce) t.toAddr (encodeBE 8 t.value) varint t.memo := by
  have hfields := takes_readUint.bind fun nonce => (takes_read 20).bind fun toAddr =>
    takes_readUint.bind fun value => takes_readVarint.bind fun memoLen =>
      (takes_read memoLen).bind fun memo => (takes_lift (decodeAscii memo)).bind fun text =>
        takes_lift (Transaction.init nonce (.bytes toAddr) value text)
  apply Takes.mono hfields
  rintro _ t ⟨nonce, b₁, _, rfl, ⟨hlen₁, hnonce⟩, toAddr, b₂, _, rfl, ⟨hlen₂, rfl⟩, value, b₃, _, rfl,
    ⟨hlen₃, hvalue⟩, memoLen, varint, _, rfl, hvarint, memo, b₅, _, rfl, ⟨hlen₅, rfl⟩, text, _, _, rfl,
    ⟨rfl, htext⟩, rfl, hinit⟩
  obtain ⟨hascii, hencode⟩ := decodeAscii_ok htext
  obtain ⟨hn, rfl, hv, rfl⟩ := init_ok hencode hinit
  have hb₁ : encodeBE 8 t.nonce = b₁ := by
    rw [hn, hnonce, ← hlen₁]
    exact encodeBE_decodeBE b₁
  have hb₃ : encodeBE 8 t.value = b₃ := by
    rw [hv, hvalue, ← hlen₃]
    exact encodeBE_decodeBE b₃
  refine ⟨varint, ?_, length_encodeBE _ _, hlen₂, length_encodeBE _ _, ?_, hascii⟩
  · rw [hb₁, hb₃]
    simp only [List.append_assoc, List.append_nil]
  · rw [hlen₅]
    exact hvarint

theorem fromBuf_of_layout {t : Transaction} {raw varint : List UInt8}
    (h : Layout raw (encodeBE 8 t.nonce) t.toAddr (encodeBE 8 t.value) varint t.memo)
    (rest : List UInt8) : Transaction.fromBuf.run (raw ++ rest) = .ok (t, rest) := by
  have hvarint : (readVarint none).run (varint ++ (t.memo ++ rest))
      = .ok (t.memo.length, t.memo ++ rest) := by
    rw [readVarint_of_decode (decode_append h.varint _), List.drop_left]
  have hmemo : (read t.memo.length).run (t.memo ++ rest) = .ok (t.memo, rest) :=
    (reads_read rfl).whole rest
  have htext : (liftM (decodeAscii t.memo) : Read (List Char)).run rest
      = .ok (t.memo.map fun b => Char.ofNat b.toNat, rest) := by
    rw [decodeAscii_eq t.ascii]
    rfl
  rw [h.split]
  simp only [List.append_assoc]
  unfold Transaction.fromBuf
  rw [bind_run_ok ((reads_readUint t.nonce_lt).whole _),
    bind_run_ok ((reads_read t.length_toAddr).whole _),
    bind_run_ok ((reads_readUint t.value_lt).whole _), bind_run_ok hvarint, bind_run_ok hmemo,
    bind_run_ok htext, t.init_eq (encodeAscii_map t.ascii)]
  rfl

/-- **What the client reads.** `from_bytes` succeeds exactly on the layouts, whatever follows them. -/
theorem fromBuf_iff (raw rest : List UInt8) (t : Transaction) :
    Transaction.fromBuf.run raw = .ok (t, rest) ↔ ∃ front varint, raw = front ++ rest
      ∧ Layout front (encodeBE 8 t.nonce) t.toAddr (encodeBE 8 t.value) varint t.memo := by
  constructor
  · intro hrun
    obtain ⟨front, heq, varint, hlayout⟩ := takes_fromBuf raw t rest hrun
    exact ⟨front, varint, heq, hlayout⟩
  · rintro ⟨front, varint, rfl, hlayout⟩
    exact fromBuf_of_layout hlayout rest

/-! ### Where the device agrees -/

/-- A layout says where it ends. -/
theorem layout_of_append {front rest nonce toAddr value varint memo nonce' toAddr' value' varint'
      memo' : List UInt8} (h : Layout front nonce toAddr value varint memo)
    (h' : Layout (front ++ rest) nonce' toAddr' value' varint' memo') : rest = [] := by
  have hdrop : (front ++ rest).drop headerLen = varint ++ (memo ++ rest) := by
    have hheader : headerLen ≤ front.length := by
      have := h.length
      omega
    rw [List.drop_append_of_le_length hheader, h.drop_header, List.append_assoc]
  have hfield := h'.lengthField
  rw [hdrop, lengthField, decode_append h.varint, Option.getD_some] at hfield
  obtain ⟨hmemo, hvarint⟩ := Prod.mk.inj hfield
  have hlen := h'.length
  rw [List.length_append, h.length] at hlen
  exact List.eq_nil_of_length_eq_zero (by omega)

/-- What stands in a layout is a transaction of the client. -/
theorem exists_transaction {raw nonce toAddr value varint memo : List UInt8}
    (h : Layout raw nonce toAddr value varint memo) :
    ∃ t : Transaction, Transaction.fromBuf.run raw = .ok (t, []) := by
  have hbytes : ∀ {bytes : List UInt8}, bytes.length = 8 →
      decodeBE bytes < 2 ^ 64 ∧ encodeBE 8 (decodeBE bytes) = bytes := by
    intro bytes hlen
    have hlt := decodeBE_lt bytes
    have hback := encodeBE_decodeBE bytes
    rw [hlen] at hlt hback
    exact ⟨lt_of_lt_of_eq hlt (by norm_num), hback⟩
  obtain ⟨hnonce, hback⟩ := hbytes h.length_nonce
  obtain ⟨hvalue, hback'⟩ := hbytes h.length_value
  let t : Transaction :=
    ⟨decodeBE nonce, toAddr, decodeBE value, memo, hnonce, hvalue, h.length_toAddr, h.ascii⟩
  have hlayout : Layout raw (encodeBE 8 t.nonce) t.toAddr (encodeBE 8 t.value) varint t.memo := by
    rwa [hback, hback']
  exact ⟨t, (fromBuf_iff raw [] t).mpr ⟨raw, varint, (List.append_nil raw).symm, hlayout⟩⟩

/-- **Where the two parsers agree.** The device takes a message for a transaction exactly when it is
at most `MAX_TX_LEN` long and the client reads all of it as one, or it is a header alone. A
transaction that the client reads from the front of what the device accepts is the one that the
device reads, and nothing is left over. -/
theorem parsers_agree {sdk : Sdk} (hsdk : sdk.ReadLaws) (raw : List UInt8)
    (tx : BoilerplateApp.Transaction) :
    ((∃ tx', DeserializesTo sdk raw tx tx') ↔ raw.length ≤ maxTxLen
        ∧ (raw.length = headerLen ∨ ∃ t, Transaction.fromBuf.run raw = .ok (t, [])))
      ∧ ∀ t rest tx', Transaction.fromBuf.run raw = .ok (t, rest) → DeserializesTo sdk raw tx tx' →
        rest = [] ∧ t.Arrives raw tx' := by
  simp only [deserializesTo_iff hsdk, parses_iff]
  constructor
  · constructor
    · rintro ⟨tx', hlen, rfl, hheader | ⟨nonce, toAddr, value, varint, memo, hlayout⟩⟩
      · exact ⟨hlen, Or.inl hheader⟩
      · exact ⟨hlen, Or.inr (exists_transaction hlayout)⟩
    · rintro ⟨hlen, hheader | ⟨t, hrun⟩⟩
      · exact ⟨fieldsOf raw, hlen, rfl, Or.inl hheader⟩
      · obtain ⟨front, varint, rfl, hlayout⟩ := (fromBuf_iff raw [] t).mp hrun
        rw [List.append_nil] at hlen ⊢
        exact ⟨fieldsOf front, hlen, rfl, Or.inr ⟨_, _, _, _, _, hlayout⟩⟩
  · rintro t rest tx' hrun ⟨hlen, rfl, haccepts⟩
    obtain ⟨front, varint, rfl, hlayout⟩ := (fromBuf_iff raw rest t).mp hrun
    have hrest : rest = [] := by
      rcases haccepts with hheader | ⟨nonce, toAddr, value, varint', memo, hlayout'⟩
      · have hfront := hlayout.length
        have hpos := hlayout.varint_pos
        rw [List.length_append] at hheader
        omega
      · exact layout_of_append hlayout hlayout'
    subst hrest
    rw [List.append_nil]
    exact ⟨rfl, Transaction.arrives hlayout⟩

open BoilerplateApp.Reference in
/-- A transaction with a memo of two bytes, and the same with a byte behind it. -/
theorem parsers_agree_hi :
    ∃ raw, hiTransaction.serialize = some raw
      ∧ (∃ tx', DeserializesTo (sdk 64) raw .zero tx' ∧ hiTransaction.Arrives raw tx')
      ∧ ¬∃ tx', DeserializesTo (sdk 64) (raw ++ [0]) .zero tx' := by
  obtain ⟨raw, varint, hraw, hlen, hlayout⟩ := hiTransaction.exists_serialize (by decide)
  have hread := readLaws (Or.inr (rfl : 64 = 64))
  have hrun := fromBuf_of_layout hlayout
  refine ⟨raw, hraw, ?_, ?_⟩
  · have hwhole := hrun []
    rw [List.append_nil] at hwhole
    obtain ⟨tx', hdevice⟩ := (parsers_agree hread raw .zero).1.mpr ⟨hlen, Or.inr ⟨_, hwhole⟩⟩
    exact ⟨tx', hdevice, ((parsers_agree hread raw .zero).2 _ _ _ hwhole hdevice).2⟩
  · rintro ⟨tx', hdevice⟩
    obtain ⟨hnil, -⟩ := (parsers_agree hread (raw ++ [0]) .zero).2 _ _ _ (hrun [0]) hdevice
    cases hnil

end BoilerplateApp.Client
