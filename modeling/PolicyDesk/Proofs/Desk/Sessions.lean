import Mathlib.Data.List.Induction
import PolicyDesk.Proofs.Desk.Effects
import PolicyDesk.Proofs.Desk.Ledger

/-!
# Sessions

What holds of the records along a session, and what the carrier is asked.
-/

namespace PolicyDesk

/-! ## What holds along a session

- **Records** (`Effect.found_after`, `Effect.found_before`): a record found after a visit was there
  before, or was opened or amended by it; a record that was there is still there or was amended.
- **Keys** (`Session.keyed`): every record of a session is stored under its own id.
- **Induction** (`Session.induction`): what holds at the start and survives every `Effect` holds of
  every session.
- **Entries** (`Session.past_split`): what comes before an entry of a session is a session, and the
  entry is what the next visit adds to it. -/

namespace Desk

variable {desk desk' : Desk} {record : Stored}

theorem Keyed.empty : Keyed .empty := by
  intro id record h
  simp at h

theorem Keyed.of_insert (hk : desk.Keyed) (h : desk.insert record = .ok desk') : desk'.Keyed := by
  intro id stored hs
  rw [stored?_of_insert h] at hs
  split at hs
  · rename_i hid
    cases hs
    exact hid.symm
  · exact hk id stored hs

theorem Keyed.of_update (hk : desk.Keyed) {expected : UInt64}
    (h : desk.update record expected = .ok desk') : desk'.Keyed := by
  intro id stored hs
  rw [stored?_of_update h] at hs
  split at hs
  · rename_i hid
    cases hs
    exact hid.symm
  · exact hk id stored hs

theorem Keyed.drawNumber (hk : desk.Keyed) : desk.drawNumber.Keyed := by
  intro id stored hs
  exact hk id stored (by simpa using hs)

theorem Keyed.told (hk : desk.Keyed) (referrals : List Referral) : (desk.told referrals).Keyed := by
  intro id stored hs
  exact hk id stored (by simpa using hs)

end Desk

namespace Effect

variable {config : EvaluationConfig Float} {v : Visit} {desk desk' : Desk} {reply : Reply}
  {id : RecordId} {record : Stored}

theorem keyed (hk : desk.Keyed) (h : Effect config v desk reply desk') : desk'.Keyed := by
  cases h with
  | kept _ _ => exact hk
  | wasted request e hc hb hi => exact hk.drawNumber
  | openedFile a _ ha hi => exact hk.of_insert hi
  | openedClaim request _ hc hb hi => exact hk.drawNumber.of_insert hi
  | amended a _ ha ht hs hr hu => exact (hk.told _).of_update hu

/-- Where a record comes from that is found after a visit. Its id tells nothing of which: an opened
record and an amended one are found alike. -/
theorem found_after (h : Effect config v desk reply desk') (hf : desk'.stored? id = some record) :
    desk.stored? id = some record ∨ v.call.Opens config record ∨
    ∃ a, Amends config v.call a ∧ desk.stored? id = some a.source ∧ record = a.changed := by
  cases h with
  | kept _ _ => exact .inl hf
  | wasted request e hc hb hi => exact .inl (by simpa using hf)
  | openedFile a _ ha hi =>
    rw [Desk.stored?_of_insert hi] at hf
    split at hf
    · cases hf
      exact .inr (.inl (.file a ha))
    · exact .inl hf
  | openedClaim request _ hc hb hi =>
    rw [Desk.stored?_of_insert hi] at hf
    split at hf
    · cases hf
      exact .inr (.inl (.claim request _ hc))
    · exact .inl (by simpa using hf)
  | amended a _ ha ht hs hr hu =>
    rw [Desk.stored?_of_update hu] at hf
    split at hf
    · rename_i hid
      rw [ha.id_eq] at hid
      exact .inr (.inr ⟨a, ha, by rw [hid, hs], (Option.some.inj hf).symm⟩)
    · exact .inl (by simpa using hf)

/-- What becomes of a record that is there. It is never taken away. -/
theorem found_before (h : Effect config v desk reply desk') (hf : desk.stored? id = some record) :
    desk'.stored? id = some record ∨
    ∃ a, Amends config v.call a ∧ a.source = record ∧ desk'.stored? id = some a.changed := by
  cases h with
  | kept _ _ => exact .inl hf
  | wasted request e hc hb hi => exact .inl (by simpa using hf)
  | openedFile a _ ha hi =>
    rw [Desk.stored?_of_insert hi]
    split
    · -- An insertion needs its id to be free, and this one is taken.
      rename_i hid
      rw [hid, Desk.free_of_insert hi] at hf
      cases hf
    · exact .inl hf
  | openedClaim request _ hc hb hi =>
    rw [Desk.stored?_of_insert hi]
    split
    · rename_i hid
      have hfree := Desk.free_of_insert hi
      rw [← hid, Desk.stored?_drawNumber, hf] at hfree
      cases hfree
    · exact .inl (by simpa using hf)
  | amended a _ ha ht hs hr hu =>
    rw [Desk.stored?_of_update hu]
    split
    · rename_i hid
      rw [ha.id_eq] at hid
      rw [hid, hs] at hf
      exact .inr ⟨a, ha, Option.some.inj hf, rfl⟩
    · exact .inl (by simpa using hf)

end Effect

namespace Session

variable {config : EvaluationConfig Float}

theorem keyed (visits : List Visit) : (run config visits).desk.Keyed := by
  induction visits using List.reverseRecOn with
  | nil => exact Desk.Keyed.empty
  | append_singleton visits v ih =>
    rw [run_append_one]
    exact (serve_effect ih).keyed ih

/-- A property of sessions, from their start on. The desk before each visit is keyed, so its effects
are those of `Effect`. -/
theorem induction {P : Session → Prop} (start : P .empty)
    (next : ∀ s v reply desk', s.desk.Keyed → P s → Effect config v s.desk reply desk' →
      P ⟨desk', s.past ++ [⟨v, reply, desk'⟩]⟩)
    (visits : List Visit) : P (run config visits) := by
  induction visits using List.reverseRecOn with
  | nil => exact start
  | append_singleton visits v ih =>
    rw [run_append_one]
    exact next _ v _ _ (keyed visits) ih (serve_effect (keyed visits))

/-- A property of the rest of a session, from the desk that it starts on. What it starts with need
not hold at the beginning of the session. -/
theorem induction_from {P : Desk → Prop} (visits : List Visit)
    (start : P (run config visits).desk)
    (next : ∀ desk v reply desk', desk.Keyed → P desk → Effect config v desk reply desk' →
      P desk')
    (more : List Visit) : P (run config (visits ++ more)).desk := by
  induction more using List.reverseRecOn with
  | nil => simpa using start
  | append_singleton more v ih =>
    rw [← List.append_assoc, run_append_one]
    exact next _ v _ _ (keyed _) ih (serve_effect (keyed _))

/-- The session up to an entry, and the entry as the visit that comes next. So a property of
sessions is a property of each of their entries. -/
theorem past_split {visits : List Visit} {pre post : List Entry} {e : Entry}
    (h : (run config visits).past = pre ++ e :: post) :
    ∃ before later, visits = before ++ e.visit :: later ∧ (run config before).past = pre ∧
      e.visit.serve config (run config before).desk = (e.reply, e.after) := by
  induction visits using List.reverseRecOn generalizing post with
  | nil => simp [empty] at h
  | append_singleton visits v ih =>
    rw [run_append_one] at h
    obtain ⟨rfl, rfl, rfl⟩ | ⟨post', rfl, hpast⟩ := append_one_split h
    · exact ⟨visits, [], rfl, rfl, rfl⟩
    · obtain ⟨before, later, rfl, hpre, hserve⟩ := ih hpast
      exact ⟨before, later ++ [v], by simp, hpre, hserve⟩

end Session

/-! ## What a call asks of the carrier

- **Contacts** (`Script.asked`, `Visit.asked`): the referrals that a script sends on a desk,
  whatever the carrier answers. The carrier's log grows by them when it accepts, and by nothing when
  it refuses (`referrals_play`, `referrals_serve`).
- **Amendments** (`asked_cases`): a call asks at most once, for the amendment that it is about to
  make. A call that is refused before that asks nothing (`asked_of_refused`).
- **Refusals** (`serve_refused`): a call whose referral is refused changes nothing, and with a
  carrier that accepts it makes its amendment (`serve_accepted`). -/

/-- The referral that a step sends. No other step reaches the carrier. -/
def DeskOp.referral? : DeskOp → Option Referral
  | refer r => some r
  | _ => none

/-- What the carrier takes down of the referrals that it is sent. It takes all or nothing, as its
answer is the same to each. -/
def CarrierAnswer.taken (answer : CarrierAnswer) (sent : List Referral) : List Referral :=
  match answer with
  | .ok () => sent
  | .error _ => []

/-- The referrals that a script sends to the carrier on a desk. They are counted whether or not the
carrier accepts. -/
def Script.asked (carrier : CarrierAnswer) : Script Reply → Desk → List Referral
  | done _, _ => []
  | step op next, desk =>
    op.referral?.toList ++
      (next (op.apply carrier desk).1).asked carrier (op.apply carrier desk).2

/-- The referrals that a visit sends to the carrier. They depend on the desk, since a call that is
refused sends none. -/
def Visit.asked (config : EvaluationConfig Float) (v : Visit) (desk : Desk) : List Referral :=
  (v.call.program config : Script Reply).asked v.carrier desk

/-! ### The log of the carrier -/

namespace CarrierAnswer

@[simp] theorem taken_ok (sent : List Referral) : taken (.ok ()) sent = sent := rfl

@[simp] theorem taken_error (e : CarrierError) (sent : List Referral) :
    taken (.error e) sent = [] := rfl

@[simp] theorem taken_nil (answer : CarrierAnswer) : answer.taken [] = [] := by
  cases answer <;> rfl

private theorem taken_append (answer : CarrierAnswer) (sent more : List Referral) :
    answer.taken (sent ++ more) = answer.taken sent ++ answer.taken more := by
  cases answer <;> rfl

end CarrierAnswer

/-- The log grows by what a step sends. A step that sends nothing leaves the log as it is. -/
private theorem DeskOp.referrals_apply (op : DeskOp) (carrier : CarrierAnswer) (desk : Desk) :
    (op.apply carrier desk).2.referrals =
      desk.referrals ++ carrier.taken op.referral?.toList := by
  cases op with
  | insert record =>
    cases hi : desk.insert record with
    | ok desk' => simp [apply_insert_ok hi, referral?, Desk.referrals_of_insert hi]
    | error e => simp [apply_insert_error hi, referral?]
  | update record expected =>
    cases hu : desk.update record expected with
    | ok desk' => simp [apply_update_ok hu, referral?, Desk.referrals_of_update hu]
    | error e => simp [apply_update_error hu, referral?]
  | fetch id => simp [apply_fetch, referral?]
  | pending limit => simp [apply_pending, referral?]
  | number => simp [apply_number, referral?, Desk.drawNumber]
  | refer r =>
    cases carrier with
    | ok u => rfl
    | error e => simp [apply_refer_error, referral?]

/-- The log grows by what a script sends. Nothing is ever struck from it. -/
private theorem Script.referrals_play (carrier : CarrierAnswer) (s : Script Reply) (desk : Desk) :
    (s.play carrier desk).2.referrals =
      desk.referrals ++ carrier.taken (s.asked carrier desk) := by
  induction s generalizing desk with
  | done reply =>
    show desk.referrals = desk.referrals ++ carrier.taken []
    rw [CarrierAnswer.taken_nil, List.append_nil]
  | step op next ih =>
    rw [play_step, ih, DeskOp.referrals_apply, asked, CarrierAnswer.taken_append,
      List.append_assoc]

theorem Visit.referrals_serve (config : EvaluationConfig Float) (v : Visit) (desk : Desk) :
    (v.serve config desk).2.referrals =
      desk.referrals ++ v.carrier.taken (v.asked config desk) := by
  rw [serve_eq_play, asked, Call.program_eq_script]
  exact Script.referrals_play v.carrier _ desk

/-! ### What a call asks -/

/-- The call was refused by the validator, by a file that is final or by the gate. A failure of the
store or of the carrier is none. -/
def UnderwritingError.isRefusal : UnderwritingError → Bool
  | violations _ => true
  | finalized _ _ => true
  | transition _ => true
  | store _ => false
  | carrier _ => false

@[inherit_doc UnderwritingError.isRefusal]
def Reply.isRefusal : Reply → Bool
  | file (.error e) => e.isRefusal
  | outcome (.error e) => e.isRefusal
  | files (.error e) => e.isRefusal
  | claim (.error .missingPolicy) => true
  | claim (.error (.transition _)) => true
  | _ => false

/-- A call that is refused has not done what it was for. It can fail in other ways too. -/
theorem Reply.isOk_of_isRefusal {reply : Reply} (h : reply.isRefusal = true) :
    reply.isOk = false := by
  rcases reply with (_ | _) | (_ | _) | (_ | _) | (_ | _)
  all_goals first | rfl | cases h

namespace Call

variable {config : EvaluationConfig Float} {c : Call} {a : Amendment} {carrier : CarrierAnswer}
  {desk : Desk}

private theorem isRefusal_unreferred (c : Call) (e : CarrierError) :
    (c.unreferred e).isRefusal = false := by
  cases c <;> rfl

private theorem asked_settle (reply : Reply) (result : Except StoreError Unit) :
    (c.settle reply result).asked carrier desk = [] := by
  cases result <;> rfl

/-- The carrier is asked for the amendment that is to be made. -/
private theorem asked_carry : (c.carry a).asked carrier desk = a.referral.toList := by
  have hwrite (desk : Desk) : (c.write a).asked carrier desk = [] := asked_settle _ _
  unfold carry
  cases a.referral with
  | none => exact hwrite desk
  | some r =>
    cases carrier with
    | ok u => exact congrArg (r :: ·) (hwrite _)
    | error e => rfl

theorem asked_reading (id : RecordId) :
    (c.reading config id).asked carrier desk =
      match desk.stored? id with
      | none => []
      | some record =>
        match c.consider config record with
        | .ok a => a.referral.toList
        | .error _ => [] := by
  rw [reading, Script.asked, DeskOp.apply_fetch]
  cases desk.stored? id with
  | none => rfl
  | some record =>
    simp only [proceed]
    cases c.consider config record with
    | ok a => exact asked_carry
    | error reply => rfl

end Call

section

variable {config : EvaluationConfig Float} {v : Visit} {desk : Desk} {a : Amendment}

theorem asked_of_amends (ha : Amends config v.call a) (ht : v.call.target? = some a.source.id)
    (hs : desk.stored? a.source.id = some a.source) :
    v.asked config desk = a.referral.toList := by
  rw [Visit.asked, Call.program_eq_script, Call.script_of_amends ha ht, Call.asked_reading, hs]
  simp only [Call.consider_eq_ok.mpr ⟨ha, rfl⟩]

/-- A call asks nothing of the carrier, or asks once for the amendment that it is to make. Its
amendment is then one that the desk allows at that moment. -/
theorem asked_cases (config : EvaluationConfig Float) (v : Visit) (hk : desk.Keyed) :
    v.asked config desk = [] ∨ ∃ a r, Amends config v.call a ∧
      v.call.target? = some a.source.id ∧ desk.stored? a.source.id = some a.source ∧
      a.referral = some r ∧ v.asked config desk = [r] := by
  rw [Visit.asked, Call.program_eq_script]
  have hshape := Call.script_shape config v.call
  generalize v.call.script config = script at hshape
  cases hshape with
  | refused reply _ => exact .inl rfl
  | listing limit _ => exact .inl rfl
  | opening a _ => exact .inl (Call.asked_settle _ _)
  | numbering request _ _ => exact .inl (Call.asked_settle _ _)
  | reading id hid =>
    rw [Call.asked_reading]
    cases hs : desk.stored? id with
    | none => exact .inl rfl
    | some record =>
      simp only
      cases hc : v.call.consider config record with
      | error reply => exact .inl rfl
      | ok a =>
        -- The record that was read stands under its own id, which is the one that the call names.
        obtain ⟨ha, rfl⟩ := Call.consider_eq_ok.mp hc
        obtain rfl := hk _ _ hs
        dsimp only
        cases hr : a.referral with
        | none => exact .inl rfl
        | some r => exact .inr ⟨a, r, ha, hid, hs, hr, rfl⟩

/-- A call whose referral is refused changes nothing. What it replies is the failure of the carrier.
-/
theorem serve_refused (ha : Amends config v.call a) (ht : v.call.target? = some a.source.id)
    (hs : desk.stored? a.source.id = some a.source) {r : Referral} (hr : a.referral = some r)
    {e : CarrierError} (he : v.carrier = .error e) :
    v.serve config desk = (v.call.unreferred e, desk) := by
  rw [Visit.serve_eq_play, Call.script_of_amends ha ht, Call.play_reading, hs]
  simp only [Call.consider_eq_ok.mpr ⟨ha, rfl⟩]
  exact Call.play_carry_error hr he

/-- A call whose referral, if it sends one, is accepted makes its amendment. No one comes between
its read and its write, so the write is accepted. -/
theorem serve_accepted (ha : Amends config v.call a) (ht : v.call.target? = some a.source.id)
    (hs : desk.stored? a.source.id = some a.source) (hr : a.referral.isSome → v.carrier = .ok ()) :
    ∃ desk', (desk.told a.referral.toList).update a.changed a.source.revision = .ok desk' ∧
      v.serve config desk = (a.reply, desk') := by
  have hcurrent : (desk.told a.referral.toList).stored? a.changed.id = some a.source := by
    rw [ha.id_eq, Desk.stored?_told, hs]
  obtain ⟨desk', hu⟩ := Desk.update_of_current hcurrent rfl
  exact ⟨desk', hu, serve_amended ha ht hs hr hu⟩

/-- A call that is refused before it comes to its referral asks nothing of the carrier. So a carrier
never hears of what the rules forbid. -/
theorem asked_of_refused (hk : desk.Keyed) (hrefused : (v.serve config desk).1.isRefusal = true) :
    v.asked config desk = [] := by
  obtain hnone | ⟨a, r, ha, ht, hs, hr, -⟩ := asked_cases config v hk
  · exact hnone
  · -- It would have asked for an amendment, and then replied with that or with the failure of the
    cases hc : v.carrier with
    | ok u =>
      obtain ⟨desk', -, hserve⟩ := serve_accepted ha ht hs fun _ => hc
      rw [hserve] at hrefused
      exact absurd (Call.isOk_of_amends ha) (by simp [Reply.isOk_of_isRefusal hrefused])
    | error e =>
      rw [serve_refused ha ht hs hr hc, Call.isRefusal_unreferred] at hrefused
      cases hrefused

end

end PolicyDesk
