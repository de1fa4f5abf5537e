import BankingControlPlane.Plane.Reached
import Mathlib.Logic.Encodable.Basic
import Mathlib.Logic.Equiv.List

/-!
# A concrete environment

* `sampleHmac` : the real digests of three actions under the development secret, and a text of the
  fields everywhere else (`sampleHmac_injective`);
* `sampleEnv` : ids of twelve digits counted up, a clock that is given, Brasília time;
* `session`, `proposal` : a customer's session, and a payment proposed in it.
-/

namespace BankingControlPlane

/-! ## Digests -/

/-- A text that tells every list of fields apart, and starts as no digest does. -/
def fieldsText (fields : List (String × String)) : String :=
  String.ofList ('#' :: Nat.toDigits 10 (Encodable.encode (fields.map fun (a, b) =>
    (a.toList.map Char.toNat, b.toList.map Char.toNat))))

theorem codes_injective : Function.Injective fun s : String => s.toList.map Char.toNat := by
  intro s t h
  have hchar : Function.Injective Char.toNat := fun x y hxy => Char.ext (UInt32.toNat_inj.mp hxy)
  exact String.toList_inj.mp (List.map_injective_iff.mpr hchar h)

theorem toDigits_injective : Function.Injective (Nat.toDigits 10) := by
  intro m n h
  rw [← Nat.ofDigitChars_ten_toDigits (n := m), h, Nat.ofDigitChars_ten_toDigits]

theorem fieldsText_injective : Function.Injective fieldsText := by
  intro xs ys h
  have hdigits := (List.cons.inj (String.ofList_injective h)).2
  have hcode := Encodable.encode_injective (toDigits_injective hdigits)
  refine List.map_injective_iff.mpr ?_ hcode
  rintro ⟨a, b⟩ ⟨c, d⟩ hab
  obtain ⟨ha, hb⟩ := Prod.mk.inj hab
  exact Prod.ext (codes_injective ha) (codes_injective hb)

/-- A payment from the default account. -/
def payTo (recipientId : String) (amount : Money) : CreatePix :=
  { sourceAccount := defaultAccount, recipientId := recipientId, amount := amount }

def money100 : Money := ⟨.cents 10000, by decide⟩
def money10013 : Money := ⟨.cents 10013, by decide⟩
def money200 : Money := ⟨.cents 20000, by decide⟩
def money1500 : Money := ⟨.cents 150000, by decide⟩

def sampleSecret : String := "trail-dev-confirmation"

/-- HMAC-SHA256 on the three payloads used here, a text of the fields on any other. -/
def sampleHmac (secret : String) : List (String × String) → String :=
  if secret = sampleSecret then
    Function.update (Function.update (Function.update fieldsText
      (payTo "contact_renata" money200).modelDump
      "d718c7355e89e9fca9365ff2f67cb97b81beaa0864b2b9b309df26728f2ce066")
      (payTo "contact_joao" money100).modelDump
      "f2b2a6845e7608c61bbb5d2273ddf1d13deaddf04532f592b7a48872f2c7ec4a")
      (payTo "contact_renata" money1500).modelDump
      "864ba8b34a16a529d233cacb7ce104e486fb32bafb4474abf50a910f82ee0f66"
  else fieldsText

section Update
variable {α β : Type} [DecidableEq α] {f : α → β} {a : α} {b c : β}

theorem update_ne (hf : ∀ x, f x ≠ c) (hb : b ≠ c) (x : α) : Function.update f a b x ≠ c := by
  by_cases hx : x = a
  · rw [hx, Function.update_self]
    exact hb
  · rw [Function.update_of_ne hx]
    exact hf x

theorem update_injective (hf : Function.Injective f) (hb : ∀ x, f x ≠ b) :
    Function.Injective (Function.update f a b) := by
  intro x y h
  by_cases hx : x = a
  · by_cases hy : y = a
    · rw [hx, hy]
    · rw [hx, Function.update_self, Function.update_of_ne hy] at h
      exact absurd h.symm (hb y)
  · by_cases hy : y = a
    · rw [hy, Function.update_self, Function.update_of_ne hx] at h
      exact absurd h (hb x)
    · rw [Function.update_of_ne hx, Function.update_of_ne hy] at h
      exact hf h

end Update

theorem fieldsText_ne {digest : String} (h : digest.toList.head? ≠ some '#')
    (fields : List (String × String)) : fieldsText fields ≠ digest := by
  rintro rfl
  exact h (by rw [fieldsText, String.toList_ofList]; rfl)

theorem sampleHmac_injective : Function.Injective (sampleHmac sampleSecret) := by
  rw [sampleHmac, if_pos rfl]
  refine update_injective (update_injective (update_injective fieldsText_injective ?_) ?_) ?_
  · exact fieldsText_ne (by decide)
  · exact update_ne (fieldsText_ne (by decide)) (by decide)
  · exact update_ne (update_ne (fieldsText_ne (by decide)) (by decide)) (by decide)

/-! ## The environment -/

/-- Twelve digits, more when twelve are not enough. -/
def hex12 (n : Nat) : String :=
  String.ofList (List.replicate (12 - (Nat.toDigits 10 n).length) '0' ++ Nat.toDigits 10 n)

theorem hex12_injective : Function.Injective hex12 := by
  intro m n h
  have hval := congrArg (fun cs => Nat.ofDigitChars 10 cs 0) (String.ofList_injective h)
  simpa [Decimal.ofDigitChars_zeros_append, Nat.ofDigitChars_ten_toDigits] using hval

/-- Brasília time: three hours behind. -/
def brasilia : Zone := fun _ => -10800000000

/-- A development environment whose plane's clock is given. -/
def sampleEnv (clock : Nat → Instant) : Env where
  secret := sampleSecret
  hmacSha256 := sampleHmac
  tokenHex := hex12
  tokenHex_injective := hex12_injective
  clock := clock
  now := fun n => 1768489200000000 + n
  zone := brasilia
  today := fun _ => 20468
  strip := fun s => s
  casefold := fun s => String.ofList (s.toList.map Char.toLower)
  repr := fun s => "'" ++ s ++ "'"

theorem sampleEnv_keyed (clock : Nat → Instant) : (sampleEnv clock).Keyed := sampleHmac_injective

/-- A clock that starts at noon in Brasília and moves a second at every reading. -/
def noon (n : Nat) : Instant := 1768489200000000 + 1000000 * n

/-- A customer's session, authenticated strongly. -/
def session : Context := { customerId := "customer_1", sessionId := "session_1", assurance := .strong }

theorem renata_named : "Renata" ≠ "" := by decide
theorem joao_named : "João" ≠ "" := by decide

def proposal (recipient : String) (amount : Money) (named : recipient ≠ "") : Op :=
  .propose session { recipient := recipient, amount := amount, named := named } "pay"

/-- What a history holds before the bank is first asked to pay. -/
def beforeAsked (h : List Obs) : List Obs :=
  h.takeWhile fun
    | .asked _ => false
    | _ => true

theorem beforeAsked_split {h : List Obs} {o : Order}
    (ho : h[(beforeAsked h).length]? = some (.asked o)) :
    h = beforeAsked h ++ .asked o :: h.drop ((beforeAsked h).length + 1) := by
  have htake : h.take (beforeAsked h).length = beforeAsked h :=
    (List.prefix_iff_eq_take.mp (List.takeWhile_prefix _)).symm
  obtain ⟨hlt, hget⟩ := List.getElem?_eq_some_iff.mp ho
  have hdrop := List.drop_eq_getElem_cons hlt
  rw [hget] at hdrop
  calc h = h.take (beforeAsked h).length ++ h.drop (beforeAsked h).length :=
        (List.take_append_drop _ h).symm
    _ = _ := by rw [htake, hdrop]

end BankingControlPlane
