import PolicyDesk.Proofs.Desk.Effects
import PolicyDesk.Proofs.Desk.Sessions

/-!
# Numbers and names of claims

Claims are numbered in order and named by their numbers, and no two have the same.
-/

namespace PolicyDesk

/-! ## The numbers of claims

Different numbers name different claims (`claimNumber_inj`), and a desk that took its numbers from
its own supply always has the next one free, until it has opened `UInt64.size` claims
(`Desk.Numbered`). -/

/-- The number that a run of digits writes, zeros in front or not. -/
theorem ofDigitChars_padLeft (width n : Nat) :
    Nat.ofDigitChars 10 (Decimal.padLeft width (Decimal.digits n)) 0 = n := by
  rw [Decimal.padLeft, Nat.ofDigitChars_append, Nat.ofDigitChars_replicate_zero, Nat.mul_zero]
  exact Nat.ofDigitChars_ten_toDigits

/-- The digits of a number can be read back, whatever zeros stand in front of them. -/
theorem claimNumber_inj {m n : UInt64} : claimNumber m = claimNumber n ↔ m = n := by
  refine ⟨fun h => ?_, fun h => h ▸ rfl⟩
  have hchars : Decimal.padLeft 6 (Decimal.digits m.toNat) =
      Decimal.padLeft 6 (Decimal.digits n.toNat) := by
    have hlist := congrArg String.toList h
    simpa [claimNumber, Decimal.padded] using hlist
  have hvalue := congrArg (fun cs => Nat.ofDigitChars 10 cs 0) hchars
  simp only [ofDigitChars_padLeft] at hvalue
  exact UInt64.toNat_inj.mp hvalue

/-- Of the first numbers, one more is the one after them. -/
private theorem number_lt_succ {opened : Nat} (hlt : opened < UInt64.size) {n : UInt64} :
    (n - 1).toNat < opened + 1 ↔ n = UInt64.ofNat opened + 1 ∨ (n - 1).toNat < opened := by
  -- Subtracting one turns the numbers from one on into those from zero on, at the wrap as well.
  have hone : n = UInt64.ofNat opened + 1 ↔ (n - 1).toNat = opened := by
    constructor
    · rintro rfl
      rw [UInt64.add_sub_cancel, UInt64.toNat_ofNat_of_lt' hlt]
    · intro heq
      rw [← heq, UInt64.ofNat_toNat, UInt64.sub_add_cancel]
  rw [hone]
  omega

namespace Desk

/-- There is a claim of a number. -/
def Taken (desk : Desk) (n : UInt64) : Prop :=
  (desk.stored? (.claim (claimNumber n))).isSome

/-- All numbers are taken. -/
def Exhausted (desk : Desk) : Prop := ∀ n, desk.Taken n

/-- The numbers taken are those from one on, as many as there are claims, and the next number is the
one after them. Once all numbers are taken the next one may be any. -/
def Numbered (desk : Desk) : Prop :=
  ∃ opened ≤ UInt64.size, (∀ n : UInt64, desk.Taken n ↔ (n - 1).toNat < opened) ∧
    (opened < UInt64.size → desk.nextClaim = UInt64.ofNat opened + 1)

variable {desk desk' : Desk}

theorem Taken.congr (h : ∀ id, desk'.stored? id = desk.stored? id) (n : UInt64) :
    desk'.Taken n ↔ desk.Taken n := by
  rw [Taken, h, Taken]

private theorem taken_of_insert_file {f : UnderwritingFile} (hi : desk.insert (.file f) = .ok desk')
    (n : UInt64) : desk'.Taken n ↔ desk.Taken n := by
  rw [Taken, stored?_of_insert hi, if_neg (by simp), Taken]

private theorem taken_of_update {record : Stored} {expected : UInt64}
    (hu : desk.update record expected = .ok desk') (n : UInt64) :
    desk'.Taken n ↔ desk.Taken n := by
  obtain ⟨stored, hs, -⟩ := current_of_update hu
  rw [Taken, stored?_of_update hu, Taken]
  split
  · rename_i hid
    rw [hid, hs]
    rfl
  · rfl

/-- A claim that is opened takes the next number. -/
theorem taken_of_insert_claim {request : OpenClaim}
    (hi : desk.drawNumber.insert (.claim (.ofRequest (claimNumber desk.nextClaim) request)) =
      .ok desk') (n : UInt64) : desk'.Taken n ↔ n = desk.nextClaim ∨ desk.Taken n := by
  rw [Taken, stored?_of_insert hi, stored?_drawNumber, Taken]
  by_cases hn : n = desk.nextClaim
  · simp [hn]
  · simp [hn, claimNumber_inj]

/-- A desk that is out of numbers stays so. -/
theorem Exhausted.congr (h : desk.Exhausted) (hsame : ∀ id, desk'.stored? id = desk.stored? id) :
    desk'.Exhausted :=
  fun n => (Taken.congr hsame n).mpr (h n)

theorem Exhausted.of_store (h : desk.Exhausted) {record : Stored}
    (hstore : ∀ id, desk'.stored? id = if id = record.id then some record else desk.stored? id) :
    desk'.Exhausted := by
  intro n
  rw [Taken, hstore]
  split
  · rfl
  · exact h n

namespace Numbered

theorem empty : Numbered .empty :=
  ⟨0, by decide, fun n => by simp [Taken], fun _ => rfl⟩

theorem congr (h : desk.Numbered) (htaken : ∀ n, desk'.Taken n ↔ desk.Taken n)
    (hnext : desk'.nextClaim = desk.nextClaim) : desk'.Numbered := by
  obtain ⟨opened, hle, ht, hn⟩ := h
  exact ⟨opened, hle, fun n => (htaken n).trans (ht n), fun hlt => hnext.trans (hn hlt)⟩

/-- When the next number is taken all are. The next number is free as long as there are fewer claims
than numbers. -/
theorem exhausted (h : desk.Numbered) (ht : desk.Taken desk.nextClaim) : desk.Exhausted := by
  obtain ⟨opened, hle, htaken, hn⟩ := h
  have hfull : opened = UInt64.size := by
    refine Nat.le_antisymm hle (Nat.not_lt.mp fun hlt => ?_)
    rw [htaken, hn hlt, UInt64.add_sub_cancel, UInt64.toNat_ofNat_of_lt' hlt] at ht
    exact Nat.lt_irrefl opened ht
  intro n
  rw [htaken, hfull]
  exact (n - 1).toNat_lt

/-- A claim opened under the next number takes it. -/
theorem opened (h : desk.Numbered) (hfree : ¬ desk.Taken desk.nextClaim)
    (htaken : ∀ n, desk'.Taken n ↔ n = desk.nextClaim ∨ desk.Taken n)
    (hnext : desk'.nextClaim = desk.nextClaim + 1) : desk'.Numbered := by
  obtain ⟨opened, hle, ht, hn⟩ := h
  -- If all numbers were taken, so would be the next one.
  have hlt : opened < UInt64.size := by
    refine Nat.lt_of_le_of_ne hle fun heq => hfree ((ht _).mpr ?_)
    rw [heq]
    exact (desk.nextClaim - 1).toNat_lt
  refine ⟨opened + 1, hlt, fun n => ?_, fun _ => ?_⟩
  · rw [htaken, ht, hn hlt, number_lt_succ hlt]
  · rw [hnext, hn hlt, UInt64.ofNat_add]
    rfl

/-! ### Steps -/

/-- A number drawn in vain was the last of a desk that is out of numbers. -/
theorem wasted (h : desk.Numbered) {request : OpenClaim} {e : StoreError}
    (hi : desk.drawNumber.insert (.claim (.ofRequest (claimNumber desk.nextClaim) request)) =
      .error e) : desk.Exhausted ∧ desk.drawNumber.Numbered := by
  have htaken : desk.Taken desk.nextClaim := by
    have := taken_of_insert_error hi
    rwa [stored?_drawNumber] at this
  have hall := h.exhausted htaken
  refine ⟨hall, UInt64.size, Nat.le_refl _, fun n => ?_, fun hlt => absurd hlt (Nat.lt_irrefl _)⟩
  exact iff_of_true (hall.congr (stored?_drawNumber desk) n) (n - 1).toNat_lt

theorem insert_claim (h : desk.Numbered) {request : OpenClaim}
    (hi : desk.drawNumber.insert (.claim (.ofRequest (claimNumber desk.nextClaim) request)) =
      .ok desk') : desk'.Numbered ∧ ¬ desk.Exhausted := by
  have hfree : ¬ desk.Taken desk.nextClaim := by
    have hnone := free_of_insert hi
    simp only [stored?_drawNumber, Stored.id_claim, Claim.claimId_ofRequest] at hnone
    simp [Taken, hnone]
  exact ⟨h.opened hfree (taken_of_insert_claim hi) (nextClaim_of_insert hi),
    fun hall => hfree (hall _)⟩

theorem insert_file (h : desk.Numbered) {f : UnderwritingFile}
    (hi : desk.insert (.file f) = .ok desk') : desk'.Numbered :=
  h.congr (taken_of_insert_file hi) (nextClaim_of_insert hi)

theorem update (h : desk.Numbered) {record : Stored} {expected : UInt64}
    (hu : desk.update record expected = .ok desk') : desk'.Numbered :=
  h.congr (taken_of_update hu) (nextClaim_of_update hu)

end Numbered

end Desk

/-! ## The numbers of claims along a session

As long as there are numbers left, the claims of a session have the numbers from one on, as many as
visits asked to open a claim for a policy (`numbersTaken`, `Session.countedTo`). So the next number
is free (`Desk.CountedTo.free`), and a claim that is to be opened is
(`Desk.CountedTo.serve_opening`). -/

/-- The visit asks to open a claim for a policy, and so takes a number. -/
def Visit.opensClaim (v : Visit) : Bool :=
  match v.call with
  | .openClaim request => !Text.isBlank request.policyId
  | _ => false

/-- How many of the visits take a number. A request for no policy is refused before a number is
drawn. -/
def numbersTaken (visits : List Visit) : Nat := visits.countP (·.opensClaim)

theorem numbersTaken_append (before later : List Visit) :
    numbersTaken (before ++ later) = numbersTaken before + numbersTaken later :=
  List.countP_append

@[simp] theorem numbersTaken_singleton (v : Visit) : numbersTaken [v] = v.opensClaim.toNat := by
  cases h : v.opensClaim <;> simp [numbersTaken, h]

private theorem opensClaim_eq_true {v : Visit} :
    v.opensClaim = true ↔
      ∃ request, v.call = .openClaim request ∧ Text.isBlank request.policyId = false := by
  unfold Visit.opensClaim
  cases v.call <;> simp

/-- A visit that takes no number leaves the numbers as they are. -/
theorem Effect.numbers_kept {config : EvaluationConfig Float} {v : Visit} {desk desk' : Desk}
    {reply : Reply} (hv : v.opensClaim = false) (h : Effect config v desk reply desk') :
    (∀ n, desk'.Taken n ↔ desk.Taken n) ∧ desk'.nextClaim = desk.nextClaim := by
  have hnot {request : OpenClaim} (hc : v.call = .openClaim request)
      (hb : Text.isBlank request.policyId = false) : False := by
    rw [opensClaim_eq_true.mpr ⟨request, hc, hb⟩] at hv
    cases hv
  cases h with
  | kept _ _ => exact ⟨fun _ => Iff.rfl, rfl⟩
  | wasted request _ hc hb _ => exact (hnot hc hb).elim
  | openedFile a _ _ hi => exact ⟨Desk.taken_of_insert_file hi, Desk.nextClaim_of_insert hi⟩
  | openedClaim request _ hc hb _ => exact (hnot hc hb).elim
  -- An amendment stores a record that was there, and telling the carrier stores none.
  | amended a _ _ _ _ _ hu =>
    have htold (n : UInt64) : (desk.told a.referral.toList).Taken n ↔ desk.Taken n :=
      Desk.Taken.congr (Desk.stored?_told desk _) n
    have hnext : desk'.nextClaim = (desk.told a.referral.toList).nextClaim :=
      Desk.nextClaim_of_update hu
    exact ⟨fun n => (Desk.taken_of_update hu n).trans (htold n), hnext⟩

namespace Desk

/-- The claims have the numbers from one to `n`, and the next number is the one after them. Unlike
`Numbered`, this says how many claims there are. -/
structure CountedTo (desk : Desk) (n : Nat) : Prop where
  taken : ∀ m : UInt64, desk.Taken m ↔ (m - 1).toNat < n
  next : desk.nextClaim = UInt64.ofNat n + 1

namespace CountedTo

variable {desk desk' : Desk} {n : Nat}

theorem empty : CountedTo .empty 0 := ⟨fun m => by simp [Taken], rfl⟩

theorem congr (h : desk.CountedTo n) (htaken : ∀ m, desk'.Taken m ↔ desk.Taken m)
    (hnext : desk'.nextClaim = desk.nextClaim) : desk'.CountedTo n :=
  ⟨fun m => (htaken m).trans (h.taken m), hnext.trans h.next⟩

theorem insert_claim (h : desk.CountedTo n) (hn : n < UInt64.size) {request : OpenClaim}
    (hi : desk.drawNumber.insert (.claim (.ofRequest (claimNumber desk.nextClaim) request)) =
      .ok desk') : desk'.CountedTo (n + 1) where
  taken m := by rw [taken_of_insert_claim hi, h.taken, h.next, number_lt_succ hn]
  next := by
    rw [nextClaim_of_insert hi, drawNumber, h.next, UInt64.ofNat_add]
    rfl

/-- The numbers up to `n` are taken, and the next one is the one after them. -/
theorem free (h : desk.CountedTo n) (hn : n < UInt64.size) : ¬ desk.Taken desk.nextClaim := by
  rw [h.taken, h.next, UInt64.add_sub_cancel, UInt64.toNat_ofNat_of_lt' hn]
  exact Nat.lt_irrefl n

/-- While there are numbers left, a claim that is to be opened is. -/
theorem serve_opening (h : desk.CountedTo n) (hn : n < UInt64.size)
    {config : EvaluationConfig Float} {v : Visit} {request : OpenClaim}
    (hc : v.call = .openClaim request) (hb : Text.isBlank request.policyId = false) :
    (v.serve config desk).1 = .claim (.ok (.ofRequest (claimNumber desk.nextClaim) request)) ∧
      (v.serve config desk).2.CountedTo (n + 1) := by
  have hfree : desk.drawNumber.stored?
      (Stored.claim (.ofRequest (claimNumber desk.nextClaim) request)).id = none := by
    simpa [Taken] using h.free hn
  obtain ⟨desk', hi⟩ := insert_of_free hfree
  rw [serve_openedClaim hc hb hi]
  exact ⟨rfl, h.insert_claim hn hi⟩

theorem serve (h : desk.CountedTo n) (hk : desk.Keyed) {config : EvaluationConfig Float}
    {v : Visit} (hn : n + v.opensClaim.toNat ≤ UInt64.size) :
    (v.serve config desk).2.CountedTo (n + v.opensClaim.toNat) := by
  cases hv : v.opensClaim with
  | false =>
    have heffect : Effect config v desk _ _ := serve_effect hk
    exact h.congr (heffect.numbers_kept hv).1 (heffect.numbers_kept hv).2
  | true =>
    rw [hv] at hn
    obtain ⟨request, hc, hb⟩ := opensClaim_eq_true.mp hv
    exact (h.serve_opening hn hc hb).2

end CountedTo

end Desk

namespace Session

variable {config : EvaluationConfig Float}

/-- The claims of a session have the numbers from one on, as many as visits took one. -/
theorem countedTo {visits : List Visit} (h : numbersTaken visits ≤ UInt64.size) :
    (run config visits).desk.CountedTo (numbersTaken visits) := by
  induction visits using List.reverseRecOn with
  | nil => exact .empty
  | append_singleton visits v ih =>
    rw [numbersTaken_append, numbersTaken_singleton] at h ⊢
    rw [run_append_one]
    exact (ih (by omega)).serve (keyed visits) h

end Session

/-! ## The names of claims

- **Numerals** (`IsNumeral`, `isNumeral_padLeft`): the digits in the name of a claim write its
  number, with no more zeros in front than make up the width. So claims of different numbers have
  different names, at any number of digits (`claimName_injective`).
- **Names along a session** (`Session.claims_named`): as long as there are numbers left, each
  request to open a claim for a policy is granted, and the claims have the names of one, two, three
  and so on in the order of the requests. -/

/-! ### Numerals -/

/-- Digits that write a number in a width or more. A numeral can be read back, and there is one of
each number and width. -/
structure IsNumeral (width n : Nat) (cs : List Char) : Prop where
  digits : ∀ c ∈ cs, c.isDigit = true
  value : Nat.ofDigitChars 10 cs 0 = n
  wide : width ≤ cs.length
  /-- Zeros in front only make up the width. -/
  shortest : width < cs.length → cs.head? ≠ some '0'

private theorem head?_digits {n : Nat} (hn : n ≠ 0) : (Decimal.digits n).head? ≠ some '0' := by
  induction n using Nat.strongRecOn with
  | ind n ih =>
    rw [Decimal.digits, Nat.toDigits_eq_if (by decide)]
    split
    · rename_i hlt
      have hdigit : ∀ d < 10, d ≠ 0 → [Nat.digitChar d].head? ≠ some '0' := by decide
      exact hdigit n hlt hn
    · rename_i hge
      have hhead := ih (n / 10) (by omega) (by omega)
      rw [List.head?_append_of_ne_nil _ Nat.toDigits_ne_nil]
      exact hhead

theorem isNumeral_padLeft {width : Nat} (hwidth : 0 < width) (n : Nat) :
    IsNumeral width n (Decimal.padLeft width (Decimal.digits n)) where
  digits c hc := by
    obtain hzero | hdigit := List.mem_append.mp hc
    · rw [List.eq_of_mem_replicate hzero]
      rfl
    · exact Nat.isDigit_of_mem_toDigits (by decide) (by decide) hdigit
  value := ofDigitChars_padLeft width n
  wide := by
    rw [Decimal.padLeft, List.length_append, List.length_replicate]
    omega
  shortest hlong := by
    rw [Decimal.padLeft, List.length_append, List.length_replicate] at hlong
    have hnone : width - (Decimal.digits n).length = 0 := by omega
    have hn : n ≠ 0 := by
      rintro rfl
      have hone : (Decimal.digits 0).length = 1 := rfl
      omega
    rw [Decimal.padLeft, hnone]
    exact head?_digits hn

/-- The name of the `k`-th claim. -/
def claimName (k : Nat) : ClaimId := "clm-" ++ Decimal.padded 6 k

private theorem claimNumber_ofNat {k : Nat} (hk : k < UInt64.size) :
    claimNumber (.ofNat k) = claimName k := by
  rw [claimNumber, UInt64.toNat_ofNat_of_lt' hk, claimName]

theorem claimName_eq (k : Nat) :
    ∃ numeral, claimName k = "clm-" ++ String.ofList numeral ∧ IsNumeral 6 k numeral :=
  ⟨_, rfl, isNumeral_padLeft (by decide) k⟩

theorem claimName_injective : Function.Injective claimName := by
  intro j k h
  obtain ⟨_, hj, numeral⟩ := claimName_eq j
  obtain ⟨_, hk, numeral'⟩ := claimName_eq k
  rw [hj, hk] at h
  have hsame := congrArg String.toList h
  simp only [String.toList_append, String.toList_ofList, List.append_cancel_left_eq] at hsame
  rw [← numeral.value, hsame, numeral'.value]

/-! ### Names along a session -/

/-- The id of the claim that a visit opened. -/
def Entry.openedId? (e : Entry) : Option ClaimId :=
  match e.visit.call, e.reply with
  | .openClaim _, .claim (.ok c) => some c.claimId
  | _, _ => none

/-- The ids of the claims that visits opened, in order. -/
def openedIds (past : List Entry) : List ClaimId := past.filterMap Entry.openedId?

/-- How the claims of a session are named. -/
structure ClaimsNamed (config : EvaluationConfig Float) (visits : List Visit) : Prop where
  /-- The `k`-th request for a policy is answered with the claim of the `k`-th name. -/
  granted : ∀ before v later request, visits = before ++ v :: later →
    v.call = .openClaim request → Text.isBlank request.policyId = false →
    (v.serve config (Session.run config before).desk).1 =
      .claim (.ok (.ofRequest (claimName (numbersTaken before + 1)) request))
  /-- A request for no policy is refused and leaves everything as it was, the next number too. -/
  refused : ∀ before v later request, visits = before ++ v :: later →
    v.call = .openClaim request → Text.isBlank request.policyId = true →
    v.serve config (Session.run config before).desk =
      (.claim (.error .missingPolicy), (Session.run config before).desk)
  noConflict : ∀ e ∈ (Session.run config visits).past, ∀ request,
    e.visit.call = .openClaim request → e.reply ≠ .claim (.error (.store .conflict))
  ids : openedIds (Session.run config visits).past =
    (List.range (numbersTaken visits)).map fun k => claimName (k + 1)
  different : (openedIds (Session.run config visits).past).Nodup
  /-- The name of a claim is `clm-` and its number, in six digits or more. -/
  numeral : ∀ k, ∃ digits, claimName k = "clm-" ++ String.ofList digits ∧ IsNumeral 6 k digits

private theorem openedIds_append_one (past : List Entry) (e : Entry) :
    openedIds (past ++ [e]) = openedIds past ++ e.openedId?.toList := by
  cases h : e.openedId? <;> simp [openedIds, h]

namespace Session

variable {config : EvaluationConfig Float} {visits : List Visit} {v : Visit} {request : OpenClaim}

/-- With numbers left, a request for a policy is granted. -/
theorem serve_granted (h : numbersTaken visits + 1 < UInt64.size) (hc : v.call = .openClaim request)
    (hb : Text.isBlank request.policyId = false) :
    (v.serve config (run config visits).desk).1 =
      .claim (.ok (.ofRequest (claimName (numbersTaken visits + 1)) request)) := by
  have hcount : (run config visits).desk.CountedTo (numbersTaken visits) := countedTo (by omega)
  have hnext : claimNumber (run config visits).desk.nextClaim =
      claimName (numbersTaken visits + 1) := by
    rw [hcount.next, ← claimNumber_ofNat h, UInt64.ofNat_add]
    rfl
  rw [(hcount.serve_opening (by omega) hc hb).1, hnext]

/-- A visit that takes no number opens no claim. -/
theorem openedId?_eq_none {desk : Desk} (hv : v.opensClaim = false) :
    Entry.openedId? ⟨v, (v.serve config desk).1, (v.serve config desk).2⟩ = none := by
  unfold Entry.openedId?
  cases hc : v.call with
  | openClaim request =>
    have hb : Text.isBlank request.policyId = true := by simpa [Visit.opensClaim, hc] using hv
    rw [serve_blank hc hb]
  | _ => rfl

/-- The visits that open a claim are those that take a number, so the names are in step with the
numbers. -/
theorem openedIds_eq (h : numbersTaken visits < UInt64.size) :
    openedIds (run config visits).past =
      (List.range (numbersTaken visits)).map fun k => claimName (k + 1) := by
  induction visits using List.reverseRecOn with
  | nil => rfl
  | append_singleton visits v ih =>
    rw [numbersTaken_append, numbersTaken_singleton] at h ⊢
    rw [run_append_one, serve, openedIds_append_one, ih (by omega)]
    cases hv : v.opensClaim with
    | false => simp [openedId?_eq_none hv]
    | true =>
      rw [hv] at h
      obtain ⟨request, hc, hb⟩ := opensClaim_eq_true.mp hv
      have hid : Entry.openedId? ⟨v, (v.serve config (run config visits).desk).1,
          (v.serve config (run config visits).desk).2⟩ =
            some (claimName (numbersTaken visits + 1)) := by
        unfold Entry.openedId?
        rw [serve_granted h hc hb, hc]
        rfl
      rw [hid, Bool.toNat_true, List.range_succ, List.map_append]
      rfl

private theorem numbersTaken_before (before later : List Visit) (hc : v.call = .openClaim request)
    (hb : Text.isBlank request.policyId = false) :
    numbersTaken before + 1 ≤ numbersTaken (before ++ v :: later) := by
  have hv : v.opensClaim = true := opensClaim_eq_true.mpr ⟨request, hc, hb⟩
  rw [numbersTaken_append, numbersTaken, numbersTaken, List.countP_cons_of_pos hv]
  omega

/-- **Claims are named in order.** The bound is that of the supply: there are no more numbers than a
counter can hold. -/
theorem claims_named (h : numbersTaken visits < UInt64.size) : ClaimsNamed config visits where
  granted before v later request hsplit hc hb := by
    have hle := numbersTaken_before before later hc hb
    rw [← hsplit] at hle
    exact serve_granted (by omega) hc hb
  refused _ _ _ _ _ hc hb := serve_blank hc hb
  noConflict e he request hc := by
    obtain ⟨pre, post, hpast⟩ := List.append_of_mem he
    obtain ⟨before, later, hsplit, -, hserve⟩ := past_split hpast
    have hreply : (e.visit.serve config (run config before).desk).1 = e.reply :=
      congrArg Prod.fst hserve
    cases hb : Text.isBlank request.policyId with
    | true =>
      rw [serve_blank hc hb] at hreply
      rw [← hreply]
      nofun
    | false =>
      have hle := numbersTaken_before before later hc hb
      rw [← hsplit] at hle
      rw [serve_granted (by omega) hc hb] at hreply
      rw [← hreply]
      nofun
  ids := openedIds_eq h
  different := by
    rw [openedIds_eq h]
    refine List.nodup_range.map fun j k heq => ?_
    exact Nat.succ.inj (claimName_injective heq)
  numeral := claimName_eq

/-- Two claims, with a request for no policy, a move and a lookup between them. -/
theorem claims_named_two :
    let visits : List Visit := [⟨.openClaim ⟨"pol-1", "hail"⟩, .ok ()⟩,
      ⟨.openClaim ⟨"  ", "fire"⟩, .ok ()⟩,
      ⟨.transition "clm-000001" ⟨.underReview, none⟩ ⟨60, 0⟩, .ok ()⟩,
      ⟨.getClaim "clm-000001", .ok ()⟩, ⟨.openClaim ⟨"pol-1", "theft"⟩, .ok ()⟩]
    numbersTaken visits < UInt64.size ∧
      openedIds (run .standard visits).past = ["clm-000001", "clm-000002"] := by
  intro visits
  have hfew : numbersTaken visits < UInt64.size := by decide
  have hnamed : ClaimsNamed .standard visits := claims_named hfew
  refine ⟨hfew, hnamed.ids.trans ?_⟩
  decide

end Session

end PolicyDesk
