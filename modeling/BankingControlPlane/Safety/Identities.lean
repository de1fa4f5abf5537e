import BankingControlPlane.Runtime.Identity
import Mathlib

/-!
# Identities are exact

* `Answers` : one answer for every failure, and the id where there is one;
* `verify_exact_iff` : a signed header is read so exactly when what follows its last colon is ASCII, or nothing
  is compared;
* `verifyJwt_exact_iff` : a bearer token is read so exactly when neither of its client claims is a list or an object;
* `customerId_readable` : a request with such a header acts for its customer, or is refused as every other.
-/

namespace BankingControlPlane.Identity
open Json Text

/-- Nothing is raised; the answer is the id that is valid, and nothing where none is. -/
def Answers (answer : Except Exn (Option String)) (Valid : String → Prop) : Prop :=
  ∃ found, answer = .ok found ∧ ∀ id, found = some id ↔ Valid id

theorem answers_none {Valid : String → Prop} (h : ∀ id, ¬ Valid id) : Answers (.ok none) Valid :=
  ⟨none, rfl, fun id => ⟨fun heq => absurd heq (by simp), fun hvalid => absurd hvalid (h id)⟩⟩

theorem not_answers_error {Valid : String → Prop} (exn : Exn) : ¬ Answers (.error exn) Valid := by
  rintro ⟨found, heq, -⟩
  cases heq

/-! ## Signed headers -/

section Signed
variable {hmac : Hmac} {secret : String}

/-- The header is what `sign` makes of this id. -/
def SignedFor (hmac : Hmac) (header : Option String) (secret customerId : String) : Prop :=
  secret ≠ "" ∧ customerId ≠ "" ∧ ∃ value, header = some value ∧ sign hmac customerId secret = .ok value

/-- Nothing is compared, or what is compared is ASCII. -/
def Comparable (header : Option String) (secret : String) : Prop :=
  secret = "" ∨ ∀ value, header = some value →
    (rpartition ':' value.toList).1 = [] ∨ isAscii (rpartition ':' value.toList).2 = true

theorem mac_ascii (customerId : String) : isAscii (mac hmac customerId secret).toList = true := by
  unfold isAscii
  rw [List.all_eq_true]
  intro c hc
  have hhex := hmac.hex_hexdigest _ _ c hc
  rcases hhex with hdigit | hletter
  · have hle : c.toNat ≤ 57 := by
      simp only [Char.isDigit, Bool.and_eq_true, decide_eq_true_eq] at hdigit
      exact hdigit.2
    exact decide_eq_true (by omega)
  · have hletters : ['a', 'b', 'c', 'd', 'e', 'f'].all (fun c => c.toNat < 128) = true := by decide
    exact List.all_eq_true.mp hletters c hletter

theorem colon_not_in_mac (customerId : String) : ':' ∉ (mac hmac customerId secret).toList := by
  intro hmem
  have hhex := hmac.hex_hexdigest _ _ ':' hmem
  exact absurd hhex (by decide)

theorem mac_ne_nil (customerId : String) : (mac hmac customerId secret).toList ≠ [] := by
  intro hnil
  have hlength := hmac.length_hexdigest secret.toUTF8 (domain ++ customerId.toUTF8)
  rw [← String.length_toList] at hlength
  change (mac hmac customerId secret).toList.length = 64 at hlength
  rw [hnil] at hlength
  cases hlength

/-- A signed value, cut at its last colon. -/
theorem signed_parts {customerId value : String} (h : sign hmac customerId secret = .ok value) :
    rpartition ':' value.toList = (customerId.toList, (mac hmac customerId secret).toList) := by
  unfold sign at h
  split_ifs at h with hsecret
  obtain rfl := Except.ok.inj h
  have hvalue : (customerId ++ ":" ++ mac hmac customerId secret).toList =
      customerId.toList ++ ':' :: (mac hmac customerId secret).toList := by
    rw [String.toList_append, String.toList_append, List.append_assoc]
    rfl
  rw [hvalue, rpartition_append ':' _ (colon_not_in_mac customerId)]

/-- Whom a header is signed for, read off its two parts. -/
theorem signedFor_iff (hsecret : secret ≠ "") {value : String} (hid : (rpartition ':' value.toList).1 ≠ [])
    (customerId : String) : SignedFor hmac (some value) secret customerId ↔
      String.ofList (rpartition ':' value.toList).1 = customerId ∧
        (mac hmac customerId secret).toList = (rpartition ':' value.toList).2 := by
  constructor
  · rintro ⟨-, -, signed, hsome, hsigned⟩
    obtain rfl := Option.some.inj hsome
    rw [signed_parts hsigned]
    exact ⟨String.ofList_toList, rfl⟩
  · rintro ⟨rfl, hmac⟩
    refine ⟨hsecret, ?_, value, rfl, ?_⟩
    · intro hempty
      have hlist := congrArg String.toList hempty
      rw [String.toList_ofList] at hlist
      exact hid hlist
    · unfold sign
      rw [if_neg hsecret]
      refine congrArg Except.ok (String.toList_injective ?_)
      rw [String.toList_append, String.toList_append, String.toList_ofList, hmac, List.append_assoc]
      exact (rpartition_parts ':' hid).symm

/-- Both parts of a signed value have something in them. -/
theorem signed_unparted {value customerId : String} (h : SignedFor hmac (some value) secret customerId) :
    (rpartition ':' value.toList).1 ≠ [] ∧ (rpartition ':' value.toList).2 ≠ [] := by
  obtain ⟨-, hne, signed, hsome, hsigned⟩ := h
  obtain rfl := Option.some.inj hsome
  rw [signed_parts hsigned]
  refine ⟨fun hnil => hne ?_, mac_ne_nil customerId⟩
  exact String.toList_injective hnil

theorem verify_unparted {value : String}
    (h : (rpartition ':' value.toList).1 = [] ∨ (rpartition ':' value.toList).2 = []) :
    verify hmac (some value) secret = .ok none := by
  unfold verify
  dsimp only
  by_cases hempty : secret = "" ∨ value = ""
  · exact if_pos hempty
  · rw [if_neg hempty, if_pos h]

/-- What `verify` answers of a value with something before its last colon and something after it. -/
theorem verify_compared (hsecret : secret ≠ "") {value : String} (hid : (rpartition ':' value.toList).1 ≠ [])
    (hsignature : (rpartition ':' value.toList).2 ≠ []) : verify hmac (some value) secret =
      if isAscii (rpartition ':' value.toList).2 then
        .ok (if (mac hmac (String.ofList (rpartition ':' value.toList).1) secret).toList =
            (rpartition ':' value.toList).2
          then some (String.ofList (rpartition ':' value.toList).1) else none)
      else .error .typeError := by
  have hvalue : value ≠ "" := by
    rintro rfl
    exact hid rfl
  unfold verify
  dsimp only
  rw [if_neg (not_or.mpr ⟨hsecret, hvalue⟩), if_neg (not_or.mpr ⟨hid, hsignature⟩)]
  unfold compareDigest
  rw [mac_ascii, Bool.true_and]
  by_cases hascii : isAscii (rpartition ':' value.toList).2 = true
  · rw [if_pos hascii, if_pos hascii]
    simp only [bind, Except.bind, pure, Except.pure, decide_eq_true_eq]
  · rw [if_neg hascii, if_neg hascii]
    rfl

theorem verify_comparable {header : Option String} (h : Comparable header secret) :
    Answers (verify hmac header secret) (SignedFor hmac header secret) := by
  by_cases hsecret : secret = ""
  · have hanswer : verify hmac header secret = .ok none := by
      unfold verify
      cases header with
      | none => rfl
      | some value => exact if_pos (Or.inl hsecret)
    rw [hanswer]
    exact answers_none fun id hsigned => hsigned.1 hsecret
  · cases header with
    | none =>
      refine answers_none ?_
      rintro id ⟨-, -, value, hvalue, -⟩
      cases hvalue
    | some value =>
      by_cases hparts : (rpartition ':' value.toList).1 = [] ∨ (rpartition ':' value.toList).2 = []
      · rw [verify_unparted hparts]
        refine answers_none fun id hsigned => ?_
        obtain ⟨hid, hsignature⟩ := signed_unparted hsigned
        exact hparts.elim hid hsignature
      · obtain ⟨hid, hsignature⟩ := not_or.mp hparts
        have hascii : isAscii (rpartition ':' value.toList).2 = true :=
          ((h.resolve_left hsecret) value rfl).resolve_left hid
        rw [verify_compared hsecret hid hsignature, if_pos hascii]
        refine ⟨_, rfl, fun id => ?_⟩
        rw [signedFor_iff hsecret hid]
        split_ifs with hsame
        · constructor
          · intro hfound
            obtain rfl := Option.some.inj hfound
            exact ⟨rfl, hsame⟩
          · exact fun hfound => congrArg some hfound.1
        · constructor
          · exact fun hfound => absurd hfound (by simp)
          · rintro ⟨rfl, hmac⟩
            exact absurd hmac hsame

theorem verify_incomparable {header : Option String} (h : ¬ Comparable header secret) :
    verify hmac header secret = .error .typeError := by
  obtain ⟨hsecret, hvalue⟩ := not_or.mp h
  push Not at hvalue
  obtain ⟨value, rfl, hid, hascii⟩ := hvalue
  have hsignature : (rpartition ':' value.toList).2 ≠ [] := fun hnil => hascii (by rw [hnil]; rfl)
  rw [verify_compared hsecret hid hsignature, if_neg hascii]

/-- **A header is answered with the id it was signed for**, and with nothing where it was signed for none, exactly
when nothing is compared or what follows the last colon is ASCII. -/
theorem verify_exact_iff (hmac : Hmac) (header : Option String) (secret : String) :
    Answers (verify hmac header secret) (SignedFor hmac header secret) ↔ Comparable header secret := by
  constructor
  · intro hanswers
    by_contra hincomparable
    rw [verify_incomparable hincomparable] at hanswers
    exact not_answers_error _ hanswers
  · exact verify_comparable

end Signed

/-- A channel's function, at the customer it signs for. -/
def channelHmac : Hmac where
  hexdigest key message :=
    if key = "local-secret".toUTF8 ∧ message = domain ++ "customer_1".toUTF8
    then "53feeb5c9af6d95db2a400fad0a226502fa69fcb1738d298eb5629930c55de67"
    else "0000000000000000000000000000000000000000000000000000000000000000"
  length_hexdigest key message := by split_ifs <;> decide
  hex_hexdigest key message := by
    intro c hc
    refine of_decide_eq_true
      ((List.all_eq_true (p := fun c => decide (c.isDigit ∨ c ∈ ['a', 'b', 'c', 'd', 'e', 'f']))).mp ?_ c hc)
    split_ifs <;> decide

/-- A header whose signature has an accent is not refused: it raises. -/
theorem accent_raises : ¬ ∀ header secret,
    Answers (verify channelHmac header secret) (SignedFor channelHmac header secret) := by
  intro h
  have hanswers := h (some "customer_1:é") "local-secret"
  have hincomparable : ¬ Comparable (some "customer_1:é") "local-secret" := by
    rintro (hnone | hvalue)
    · exact absurd hnone (by decide)
    · exact absurd (hvalue _ rfl) (by decide)
  rw [verify_incomparable hincomparable] at hanswers
  exact not_answers_error _ hanswers

/-! ## Bearer tokens -/

section Token
variable {F Key : Type} {v : Verifier F Key}

/-- The header has a bearer token, for which there is a key, and which decodes to these claims. -/
def Decoded (v : Verifier F Key) (header : Option String) (claims : Claims F) : Prop :=
  v.issuer ≠ "" ∧ v.clientId ≠ "" ∧ ∃ value token key, header = some value ∧ value ≠ "" ∧
    bearerToken value = some token ∧ v.keyFor token = .ok key ∧ v.decode token key v.issuer = .ok claims

/-- The claims name the subject, and the application: `aud` may be a list of them. -/
def Accepts (clientId : String) (claims : Claims F) (sub : String) : Prop :=
  claims.get "sub" = .str sub ∧ sub ≠ "" ∧
    (claims.get "client_id" = .str clientId ∨ claims.get "aud" = .str clientId ∨
      ∃ items, claims.get "aud" = .arr items ∧ .str clientId ∈ items)

/-- Neither of the client claims is a list or an object. -/
def Claims.Plain (claims : Claims F) : Prop :=
  hashable (claims.get "client_id") = true ∧ hashable (claims.get "aud") = true

theorem isText_iff {text : String} {value : Value F} : isText text value = true ↔ value = .str text := by
  cases value with
  | str s =>
    show decide (s = text) = true ↔ _
    rw [decide_eq_true_eq]
    exact ⟨congrArg Value.str, Value.str.inj⟩
  | _ => exact ⟨fun h => absurd h (by simp [isText]), fun h => absurd h (by simp)⟩

theorem toOption_eq_some {ε α : Type} {result : Except ε α} {a : α} : result.toOption = some a ↔ result = .ok a := by
  cases result with
  | ok b => exact ⟨fun h => congrArg Except.ok (Option.some.inj h), fun h => congrArg some (Except.ok.inj h)⟩
  | error e => exact ⟨fun h => absurd h (by simp [Except.toOption]), fun h => absurd h (by simp)⟩

/-- The claims that are looked at are those the token decodes to. -/
theorem claims_eq_some_iff (header : Option String) (claims : Claims F) :
    v.claims header = some claims ↔ Decoded v header claims := by
  unfold Verifier.claims
  cases header with
  | none =>
    refine ⟨fun h => absurd h (by simp), ?_⟩
    rintro ⟨-, -, value, token, key, hvalue, -⟩
    cases hvalue
  | some value =>
    simp only [Option.bind_eq_bind, Option.bind_some]
    by_cases hempty : value = "" ∨ v.issuer = "" ∨ v.clientId = ""
    · rw [if_pos hempty]
      refine ⟨fun h => absurd h (by simp), ?_⟩
      rintro ⟨hissuer, hclient, signed, token, key, hsome, hvalue, -⟩
      obtain rfl := Option.some.inj hsome
      rcases hempty with h | h | h
      · exact absurd h hvalue
      · exact absurd h hissuer
      · exact absurd h hclient
    · rw [if_neg hempty]
      obtain ⟨hvalue, hissuer, hclient⟩ := not_or.mp hempty |>.imp id not_or.mp
      simp only [Option.bind_eq_some_iff, toOption_eq_some]
      constructor
      · rintro ⟨token, htoken, key, hkey, hdecode⟩
        exact ⟨hissuer, hclient, value, token, key, rfl, hvalue, htoken, hkey, hdecode⟩
      · rintro ⟨-, -, given, token, key, hsome, -, htoken, hkey, hdecode⟩
        obtain rfl := Option.some.inj hsome
        exact ⟨token, htoken, key, hkey, hdecode⟩

/-- What `verifyJwt` answers of claims whose client claims are plain. -/
theorem verifyJwt_claims {header : Option String} {claims : Claims F} (hclaims : v.claims header = some claims)
    (hplain : claims.Plain) : Answers (verifyJwt v header) (Accepts v.clientId claims) := by
  have hset : setOf claims clientClaims = .ok [claims.get "client_id", claims.get "aud"] := by
    unfold setOf clientClaims
    refine if_pos ?_
    simp only [List.map_cons, List.map_nil, List.all_cons, List.all_nil, hplain.1, hplain.2, Bool.and_true]
  have hpresented : [claims.get "client_id", claims.get "aud"].any (isText v.clientId) = true ↔
      claims.get "client_id" = .str v.clientId ∨ claims.get "aud" = .str v.clientId := by
    simp only [List.any_cons, List.any_nil, Bool.or_false, Bool.or_eq_true, isText_iff]
  have hnolist : ¬ ∃ items, claims.get "aud" = .arr items ∧ .str v.clientId ∈ items := by
    rintro ⟨items, haud, -⟩
    have hhashable := hplain.2
    rw [haud] at hhashable
    cases hhashable
  unfold verifyJwt
  rw [hclaims]
  simp only [hset, bind, Except.bind, pure, Except.pure]
  by_cases hclient : [claims.get "client_id", claims.get "aud"].any (isText v.clientId) = true
  · rw [if_pos hclient]
    have hnamed := hpresented.mp hclient
    cases hsub : claims.get "sub" with
    | str sub =>
      refine ⟨_, rfl, fun id => ?_⟩
      unfold Accepts
      rw [hsub]
      split_ifs with hempty
      · refine ⟨fun h => absurd h (by simp), fun h => absurd ?_ h.2.1⟩
        exact (Value.str.inj h.1).symm.trans hempty
      · constructor
        · intro hfound
          obtain rfl := Option.some.inj hfound
          exact ⟨rfl, hempty, hnamed.imp id Or.inl⟩
        · exact fun h => congrArg some (Value.str.inj h.1)
    | _ =>
      refine answers_none fun id haccepts => ?_
      have hid := haccepts.1
      rw [hsub] at hid
      cases hid
  · rw [if_neg hclient]
    refine answers_none fun id haccepts => ?_
    rcases haccepts.2.2 with hnamed | hnamed | hlist
    · exact hclient (hpresented.mpr (Or.inl hnamed))
    · exact hclient (hpresented.mpr (Or.inr hnamed))
    · exact hnolist hlist

/-- Claims with a list or an object for a client claim make no set. -/
theorem verifyJwt_raises {header : Option String} {claims : Claims F} (hclaims : v.claims header = some claims)
    (hplain : ¬ claims.Plain) : verifyJwt v header = .error .typeError := by
  have hset : setOf claims clientClaims = .error .typeError := by
    unfold setOf clientClaims
    refine if_neg fun hall => hplain ?_
    unfold Claims.Plain
    simpa only [List.map_cons, List.map_nil, List.all_cons, List.all_nil, Bool.and_true, Bool.and_eq_true] using hall
  unfold verifyJwt
  rw [hclaims]
  simp only [hset, bind, Except.bind]

/-- The subject a bearer token is to be answered with. -/
def NamedBy (v : Verifier F Key) (header : Option String) (sub : String) : Prop :=
  ∃ claims, Decoded v header claims ∧ Accepts v.clientId claims sub

theorem verifyJwt_plain {header : Option String} (h : ∀ claims, Decoded v header claims → claims.Plain) :
    Answers (verifyJwt v header) (NamedBy v header) := by
  cases hclaims : v.claims header with
  | none =>
    have hanswer : verifyJwt v header = .ok none := by
      unfold verifyJwt
      rw [hclaims]
    rw [hanswer]
    refine answers_none ?_
    rintro sub ⟨claims, hdecoded, -⟩
    rw [(claims_eq_some_iff header claims).mpr hdecoded] at hclaims
    cases hclaims
  | some claims =>
    have hdecoded : ∀ other, Decoded v header other ↔ claims = other := fun other => by
      rw [← claims_eq_some_iff, hclaims, Option.some_inj]
    have hplain : claims.Plain := h claims ((hdecoded claims).mpr rfl)
    unfold NamedBy
    simp only [hdecoded, exists_eq_left']
    exact verifyJwt_claims hclaims hplain

/-- **A bearer token is answered with its subject**, where it decodes to claims that name one and the application, and
with nothing otherwise, exactly when neither client claim of the token is a list or an object. -/
theorem verifyJwt_exact_iff (v : Verifier F Key) (header : Option String) :
    Answers (verifyJwt v header) (NamedBy v header) ↔ ∀ claims, Decoded v header claims → claims.Plain := by
  constructor
  · intro hanswers claims hdecoded
    by_contra hplain
    rw [verifyJwt_raises ((claims_eq_some_iff header claims).mpr hdecoded) hplain] at hanswers
    exact not_answers_error _ hanswers
  · exact verifyJwt_plain

end Token

/-- An id token whose audience is a list with the application in it, as the format allows. -/
def listed : Claims Unit where
  fields := [("iss", .str "https://issuer"), ("exp", .int 1768489500), ("sub", .str "customer_1"),
    ("aud", .arr [.str "app"])]
  required name hname := by
    simp only [List.mem_cons, List.not_mem_nil, or_false] at hname
    rcases hname with rfl | rfl | rfl <;> simp [claim]

def listedVerifier : Verifier Unit Unit where
  issuer := "https://issuer"
  clientId := "app"
  keyFor _ := .ok ()
  decode _ _ _ := .ok listed

/-- The subject of such a token is not answered: it raises. -/
theorem audience_raises :
    ¬ ∀ header, Answers (verifyJwt listedVerifier header) (NamedBy listedVerifier header) := by
  intro h
  have hclaims : listedVerifier.claims (some "Bearer token") = some listed := rfl
  have hplain : ¬ listed.Plain := fun hplain => Bool.false_ne_true hplain.2
  have hanswers := h (some "Bearer token")
  rw [verifyJwt_raises hclaims hplain] at hanswers
  exact not_answers_error _ hanswers

/-! ## Requests -/

section Requests
variable {F Key : Type} {hmac : Hmac} {v : Verifier F Key} {settings : Settings} {headers : Headers}

/-- The customer the request's header names, by the scheme in use. -/
def From (hmac : Hmac) (v : Verifier F Key) (settings : Settings) (headers : Headers) : String → Prop :=
  match settings.identityMode with
  | .hmac => SignedFor hmac headers.identity settings.identitySecret
  | .jwt => NamedBy v headers.authorization

/-- The header is one that either scheme can read. -/
def Readable (v : Verifier F Key) (settings : Settings) (headers : Headers) : Prop :=
  match settings.identityMode with
  | .hmac => Comparable headers.identity settings.identitySecret
  | .jwt => ∀ claims, Decoded v headers.authorization claims → claims.Plain

/-- A request whose header can be read acts for the customer it is from; every other such request gets one answer. -/
theorem customerId_readable (h : Readable v settings headers) :
    (∃ id, From hmac v settings headers id ∧ customerId hmac v settings headers = .customer id) ∨
      (∀ id, ¬ From hmac v settings headers id) ∧
        customerId hmac v settings headers = .httpException 401 unauthenticated := by
  have hresolved : ∀ {answer Valid}, Answers answer Valid →
      (∃ id, Valid id ∧ answer = .ok (some id)) ∨ (∀ id, ¬ Valid id) ∧ answer = .ok none := by
    rintro answer Valid ⟨found, rfl, hiff⟩
    cases found with
    | none => exact Or.inr ⟨fun id hvalid => absurd ((hiff id).mpr hvalid) (by simp), rfl⟩
    | some id => exact Or.inl ⟨id, (hiff id).mp rfl, rfl⟩
  unfold Readable at h
  unfold From customerId
  cases hmode : settings.identityMode with
  | hmac =>
    rw [hmode] at h
    rcases hresolved (@verify_comparable hmac _ _ h) with ⟨id, hvalid, hanswer⟩ | ⟨hnone, hanswer⟩
    · exact Or.inl ⟨id, hvalid, by simp only [hanswer]⟩
    · exact Or.inr ⟨hnone, by simp only [hanswer]⟩
  | jwt =>
    rw [hmode] at h
    rcases hresolved (verifyJwt_plain h) with ⟨id, hvalid, hanswer⟩ | ⟨hnone, hanswer⟩
    · exact Or.inl ⟨id, hvalid, by simp only [hanswer]⟩
    · exact Or.inr ⟨hnone, by simp only [hanswer]⟩

end Requests

end BankingControlPlane.Identity
