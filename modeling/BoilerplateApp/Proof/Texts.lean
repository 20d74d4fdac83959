import BoilerplateApp.Lib.Numerals
import BoilerplateApp.Proof.Assembly

/-!
# The texts of a review

An amount of 64 bits has at most twenty digits, an address forty, so both texts fit their arrays with
nothing cut off, and the two together tell the value and the receiver of the transaction.
-/

namespace BoilerplateApp

section Texts

variable {sdk : Sdk}

/-! ### The amount -/

theorem length_toDigits_value (value : UInt64) : (Nat.toDigits 10 value.toNat).length ≤ 20 :=
  (Nat.length_toDigits_le_iff (by norm_num) (by norm_num)).mpr
    (lt_trans value.toNat_lt (by norm_num))

theorem formatFpu64_eq (hformat : sdk.FormatLaws) (value : UInt64) :
    sdk.formatFpu64 30 value exponentSmallestUnit = (true, fixedPoint value.toNat 3) := by
  have hdigits := length_toDigits_value value
  have hdecimals : exponentSmallestUnit.toNat = 3 := rfl
  rw [hformat.formatFpu64 30 value exponentSmallestUnit (by omega), hdecimals]

theorem fixedPoint_eq (value decimals : Nat) : fixedPoint value decimals
    = Nat.toDigits 10 (value / 10 ^ decimals)
      ++ '.' :: Decimal.padded decimals (value % 10 ^ decimals) := rfl

theorem length_fixedPoint_le (value : UInt64) : (fixedPoint value.toNat 3).length ≤ 21 := by
  have hwhole : value.toNat / 10 ^ 3 < 10 ^ 17 := by
    have hlt := value.toNat_lt
    omega
  have hlen : (Nat.toDigits 10 (value.toNat / 10 ^ 3)).length ≤ 17 :=
    (Nat.length_toDigits_le_iff (by norm_num) (by norm_num)).mpr hwhole
  rw [fixedPoint_eq, List.length_append, List.length_cons,
    Decimal.length_padded (by norm_num) (Nat.mod_lt _ (by norm_num))]
  omega

theorem amountText_eq (value : UInt64) : amountText (fixedPoint value.toNat 3)
    = ['B', 'O', 'L', ' '] ++ fixedPoint value.toNat 3 := by
  have hlen := length_fixedPoint_le value
  have hwhole : (fixedPoint value.toNat 3).take 30 = fixedPoint value.toNat 3 :=
    List.take_of_length_le (by omega)
  rw [amountText, snprintf, hwhole]
  apply List.take_of_length_le
  simp only [List.length_append, List.length_cons, List.length_nil]
  omega

/-! ### The address -/

theorem addressText_eq (hhex : sdk.HexLaws) {address : List UInt8}
    (hlen : address.length = addressLen) :
    addressText sdk address = ['0', 'x'] ++ Hex.encode address := by
  have haddr : addressLen = 20 := rfl
  rw [addressText, snprintf, hhex.printHex]
  apply List.take_of_length_le
  rw [List.length_append, Hex.length_encode, hlen]
  decide

/-- The receiver of a transaction with pointers into `raw`. -/
def receiver (raw : List UInt8) (tx : Transaction) : List UInt8 :=
  (raw.drop tx.toAddr).take addressLen

theorem Parses.length_receiver {raw : List UInt8} {tx : Transaction} (h : Parses raw tx) :
    (receiver raw tx).length = addressLen := by
  have hheader := h.header
  have hlen : headerLen = 36 := rfl
  have haddr : addressLen = 20 := rfl
  rw [receiver, h.fields, List.length_take, List.length_drop]
  simp only [fieldsOf]
  omega

/-! ### Both -/

/-- The amount and the address on the device are those of `tx`, as parsed from `raw`: complete, and
within their arrays of 30 and 43 characters with the NUL. -/
structure FaithfulTexts (raw : List UInt8) (tx : Transaction) (d : Device) : Prop where
  amount_eq : ∃ whole fraction, d.gAmount = ['B', 'O', 'L', ' '] ++ (whole ++ '.' :: fraction)
    ∧ '.' ∉ whole ∧ fraction.length = 3
  amount_value : Decimal.valueOf (d.gAmount.drop 4) = tx.value.toNat / 1000
  amount_fits : d.gAmount.length < 30
  address_eq : d.gAddress = ['0', 'x'] ++ Hex.encode (receiver raw tx)
  address_fits : d.gAddress.length = 42

/-- A device on which all is ready for a review: what was received has been parsed. -/
structure Reviewable (d : Device) : Prop where
  reqType : d.gContext.reqType = .confirmTransaction
  state : d.gContext.state = .parsed
  parses : Parses d.gContext.txInfo.received d.gContext.txInfo.transaction

variable {ui : Ui} {d d' : Device} {raw raw' : List UInt8} {tx tx' : Transaction}
  {effects : List Effect}

theorem faithfulTexts_of_shown (hhex : sdk.HexLaws) (hparses : Parses raw tx)
    (hamount : d.gAmount = amountText (fixedPoint tx.value.toNat 3))
    (haddress : d.gAddress = addressText sdk (receiver raw tx)) : FaithfulTexts raw tx d := by
  have hfraction : tx.value.toNat % 10 ^ 3 < 10 ^ 3 := Nat.mod_lt _ (by norm_num)
  rw [amountText_eq] at hamount
  rw [addressText_eq hhex hparses.length_receiver] at haddress
  refine ⟨⟨_, _, hamount, Decimal.not_mem_toDigits_point _, ?_⟩, ?_, ?_, haddress, ?_⟩
  · exact Decimal.length_padded (by norm_num) hfraction
  · rw [hamount, List.drop_left' (by rfl), fixedPoint_eq, Decimal.valueOf_toDigits (by norm_num)]
    norm_num
  · have hlen := length_fixedPoint_le tx.value
    rw [hamount, List.length_append]
    simp only [List.length_cons, List.length_nil]
    omega
  · rw [haddress, List.length_append, Hex.length_encode, hparses.length_receiver]
    decide

theorem FaithfulTexts.inj (h : FaithfulTexts raw tx d) (h' : FaithfulTexts raw' tx' d')
    (hamount : d.gAmount = d'.gAmount) (haddress : d.gAddress = d'.gAddress) :
    tx.value = tx'.value ∧ receiver raw tx = receiver raw' tx' := by
  constructor
  · have hvalue : (tx.value.toNat : ℚ) / 1000 = tx'.value.toNat / 1000 := by
      rw [← h.amount_value, hamount, h'.amount_value]
    have hnat : (tx.value.toNat : ℚ) = tx'.value.toNat :=
      (div_left_inj' (by norm_num)).mp hvalue
    exact UInt64.toNat_inj.mp (Nat.cast_injective hnat)
  · have htext := h.address_eq.symm.trans (haddress.trans h'.address_eq)
    exact Hex.encode_injective (List.append_cancel_left htext)

theorem uiDisplayTransaction_faithful (ui : Ui) (hformat : sdk.FormatLaws) (hhex : sdk.HexLaws)
    (hd : Reviewable d) :
    ∃ d', uiDisplayTransaction ui sdk d = some (d', [.startReview .confirmTransaction])
      ∧ FaithfulTexts d.gContext.txInfo.received d.gContext.txInfo.transaction d' := by
  have hself : d.parsed d.gContext.txInfo.transaction d.gContext.txInfo.mHash = d := by
    rw [Device.parsed, ← hd.state]
  have hshow := uiDisplayTransaction_eq ui sdk hd.reqType d.gContext.txInfo.transaction
    d.gContext.txInfo.mHash
  have hamount := formatFpu64_eq hformat d.gContext.txInfo.transaction.value
  rw [hself, hamount, if_neg (by simp)] at hshow
  refine ⟨_, hshow, faithfulTexts_of_shown hhex hd.parses ?_ ?_⟩
  · rw [Device.reviewing_gAmount, hamount]
  · rw [Device.reviewing_gAddress, receiver, hd.parses.take_toAddr]

theorem uiDisplayTransaction_amount (hformat : sdk.FormatLaws)
    (h : uiDisplayTransaction ui sdk d = some (d', effects)) (data : List UInt8) :
    .send swDisplayAmountFail data ∉ effects := by
  obtain ⟨start, hformats⟩ := uiDisplayTransaction_formats ui sdk
  simp only [hformats, formatTransaction, formatFpu64_eq hformat] at h
  split at h
  · obtain ⟨-, rfl⟩ := Prod.mk.inj (Option.some.inj h)
    simp [swBadState, swDisplayAmountFail]
  · obtain ⟨-, rfl⟩ := Prod.mk.inj (Option.some.inj h)
    simp

/-- **The reviewed texts are complete and unambiguous.** `ui_display_transaction` never fails for
the amount. A parsed transaction is shown with both of its texts, and two transactions with the same
texts have the same value and the same receiver. -/
theorem reviewed_texts (hformat : sdk.FormatLaws) (hhex : sdk.HexLaws) :
    (∀ ui d d' effects data, uiDisplayTransaction ui sdk d = some (d', effects) →
      .send swDisplayAmountFail data ∉ effects)
    ∧ (∀ ui d, Reviewable d →
      ∃ d', uiDisplayTransaction ui sdk d = some (d', [.startReview .confirmTransaction])
        ∧ FaithfulTexts d.gContext.txInfo.received d.gContext.txInfo.transaction d')
    ∧ ∀ ui₁ ui₂ d₁ d₂ d₁' d₂' effects₁ effects₂, Reviewable d₁ → Reviewable d₂ →
      uiDisplayTransaction ui₁ sdk d₁ = some (d₁', effects₁) →
      uiDisplayTransaction ui₂ sdk d₂ = some (d₂', effects₂) →
      d₁'.gAmount = d₂'.gAmount → d₁'.gAddress = d₂'.gAddress →
      d₁.gContext.txInfo.transaction.value = d₂.gContext.txInfo.transaction.value
        ∧ receiver d₁.gContext.txInfo.received d₁.gContext.txInfo.transaction
          = receiver d₂.gContext.txInfo.received d₂.gContext.txInfo.transaction := by
  refine ⟨?_, ?_, ?_⟩
  · intro ui d d' effects data h
    exact uiDisplayTransaction_amount hformat h data
  · intro ui d hd
    exact uiDisplayTransaction_faithful ui hformat hhex hd
  · intro ui₁ ui₂ d₁ d₂ d₁' d₂' effects₁ effects₂ hd₁ hd₂ h₁ h₂ hamount haddress
    obtain ⟨d₁'', hshow₁, htexts₁⟩ := uiDisplayTransaction_faithful ui₁ hformat hhex hd₁
    obtain ⟨d₂'', hshow₂, htexts₂⟩ := uiDisplayTransaction_faithful ui₂ hformat hhex hd₂
    obtain ⟨rfl, -⟩ := Prod.mk.inj (Option.some.inj (h₁.symm.trans hshow₁))
    obtain ⟨rfl, -⟩ := Prod.mk.inj (Option.some.inj (h₂.symm.trans hshow₂))
    exact htexts₁.inj htexts₂ hamount haddress

end Texts

namespace Reference

/-- The device when `tx` has been received and parsed. -/
def parsedDevice : Device :=
  { Device.boot with gContext := { GlobalCtx.fresh .confirmTransaction with
      state := .parsed
      txInfo.rawTx := ⟨tx ++ List.replicate (maxTransactionLen - tx.length) 0, by
        rw [List.length_append, List.length_replicate]
        decide⟩
      txInfo.rawTxLen := tx.length
      txInfo.transaction := fieldsOf tx } }

theorem received_parsedDevice : parsedDevice.gContext.txInfo.received = tx := by
  decide +kernel

theorem reviewable_parsedDevice : Reviewable parsedDevice where
  reqType := rfl
  state := rfl
  parses := by
    rw [received_parsedDevice]
    exact ⟨by decide, by decide, rfl, by decide, isAscii_iff.mp (by decide)⟩

end Reference

open Reference in
/-- 666 units are shown as 0.666. -/
theorem reviewed_texts_tx :
    ∃ d', uiDisplayTransaction .nbgl (sdk 64) parsedDevice
        = some (d', [.startReview .confirmTransaction])
      ∧ FaithfulTexts tx (fieldsOf tx) d'
      ∧ d'.gAmount = ['B', 'O', 'L', ' ', '0', '.', '6', '6', '6'] := by
  have htexts := (reviewed_texts (formatLaws 64) (hexLaws 64)).2.1 .nbgl parsedDevice
    reviewable_parsedDevice
  rw [received_parsedDevice] at htexts
  obtain ⟨d', hshow, hfaithful⟩ := htexts
  refine ⟨d', hshow, hfaithful, ?_⟩
  have hamount : (uiDisplayTransaction .nbgl (sdk 64) parsedDevice).map (·.1.gAmount)
      = some ['B', 'O', 'L', ' ', '0', '.', '6', '6', '6'] := by decide +kernel
  rw [hshow, Option.map_some] at hamount
  exact Option.some.inj hamount

end BoilerplateApp
