import PolicyDesk.Proofs.Desk.Effects
import PolicyDesk.Proofs.Desk.Ledger

/-!
# Many calls at one desk

A `Floor` has any number of calls under way at one desk. A `Move` starts a call, or lets the call of
a ticket take its next step; what the steps did is kept in the trace. Every list of moves is a run
(`Floor.run`), so the runs are all the ways in which the steps of calls can follow each other.

- **Turns** (`Script.turn`): the next step of a script. The number of a new claim is drawn together
  with the insertion that it is for.
- **Progress** (`Progress`): where a call is, told from its own events.
- **Advances** (`Advance`, `Progress.advance`): all that one step of a call can do.
-/

namespace PolicyDesk

/-! ## Turns -/

/-- The event that a step leaves. A missing record, the queue and any failure but a stale write
leave none. -/
def DeskOp.event? : (op : DeskOp) → op.Answer → Option Event
  | insert record, .ok () => some (.wrote record none)
  | update record expected, .ok () => some (.wrote record (some expected))
  | update record expected, .error .stale => some (.stale record expected)
  | fetch _, .ok (some record) => some (.read record)
  | refer referral, .ok () => some (.referred referral)
  | _, _ => none

/-- What a step of a script leaves. Without an event the step has told nothing that another call
could notice. -/
structure Turn where
  rest : Script Reply
  desk : Desk
  event : Option Event

/-- The next step of a script. Drawing it alone changes no record, so no call can tell whether
another came in between. -/
def Script.turn (carrier : CarrierAnswer) : Script Reply → Desk → Turn
  | .done reply, desk => ⟨.done reply, desk, none⟩
  | .step .number next, desk => (next desk.nextClaim).turn carrier desk.drawNumber
  | .step op next, desk =>
    let result := op.apply carrier desk
    ⟨next result.1, result.2, op.event? result.1⟩

/-! ## Floors -/

/-- A call under way. What is left of the call is its script, so its past need not be kept here. -/
structure Task where
  visit : Visit
  rest : Script Reply

/-- The reply of a call that has ended. It never changes once it is there. -/
def Task.reply? (task : Task) : Option Reply :=
  match task.rest with
  | .done reply => some reply
  | .step _ _ => none

theorem Task.reply?_eq_none {task : Task} :
    task.reply? = none ↔ ∀ reply, task.rest ≠ .done reply := by
  unfold reply?
  cases task.rest <;> simp

/-- The tickets of the calls are their places in the order of arrival. -/
structure Floor where
  desk : Desk
  /-- The calls started so far, each at the place of its ticket. -/
  tasks : List Task
  /-- What the steps did, the latest last. -/
  trace : List Happening

/-- The next thing to happen at the desk. Which it is, nothing decides. -/
inductive Move
  | start (v : Visit)
  | advance (ticket : Nat)

namespace Floor

def empty : Floor := ⟨.empty, [], []⟩

variable (config : EvaluationConfig Float)

/-- The call comes to the desk and takes no step yet. -/
def start (floor : Floor) (v : Visit) : Floor :=
  { floor with tasks := floor.tasks ++ [⟨v, v.call.program config⟩] }

/-- The floor once the call of a ticket has taken a step. The other calls do not notice. -/
def after (floor : Floor) (ticket : Nat) (v : Visit) (rest : Script Reply) (desk : Desk)
    (event : Option Event) : Floor where
  desk := desk
  tasks := floor.tasks.set ticket ⟨v, rest⟩
  trace := floor.trace ++ (event.map (Happening.mk ticket)).toList

/-- The call of a ticket takes its next step, if there is one. A ticket that was not given out, or
whose call has ended, leaves the floor as it is. -/
def advance (floor : Floor) (ticket : Nat) : Floor :=
  match floor.tasks[ticket]? with
  | none => floor
  | some task =>
    let turn := task.rest.turn task.visit.carrier floor.desk
    floor.after ticket task.visit turn.rest turn.desk turn.event

def step (floor : Floor) : Move → Floor
  | .start v => floor.start config v
  | .advance ticket => floor.advance ticket

/-- The floor after some moves, from a desk with nothing on it. No move is ever refused, so every
list of them is a run. -/
def run (moves : List Move) : Floor := moves.foldl (step config) empty

@[simp] theorem run_nil : run config [] = empty := rfl

theorem run_append (moves more : List Move) :
    run config (moves ++ more) = more.foldl (step config) (run config moves) :=
  List.foldl_append

@[simp] theorem run_append_one (moves : List Move) (move : Move) :
    run config (moves ++ [move]) = (run config moves).step config move :=
  run_append config moves [move]

/-- The events of a ticket. -/
def own (floor : Floor) (ticket : Nat) : List Event := eventsOf ticket floor.trace

/-- The tickets of the calls that stored a record, in the order in which they did. A call commits
once at most, so no ticket comes twice (`Floor.commits_nodup`). -/
def commits (floor : Floor) : List Nat :=
  floor.trace.filterMap fun h =>
    match h.event with
    | .wrote _ _ => some h.ticket
    | _ => none

/-- The reply to a ticket, if its call has ended. -/
def reply? (floor : Floor) (ticket : Nat) : Option Reply := floor.tasks[ticket]?.bind Task.reply?

/-- The visit of a ticket. -/
def visit? (floor : Floor) (ticket : Nat) : Option Visit := floor.tasks[ticket]?.map (·.visit)

/-- The visits that stored a record, in the order in which they did. These are the visits that the
session of the commits serves. -/
def served (floor : Floor) : List Visit := floor.commits.filterMap floor.visit?

end Floor

/-! ## Progress -/

/-- The events that a call has left when its amendment is to be written. It has read the record, and
told the carrier if there was something to tell. -/
def Amendment.before (a : Amendment) : List Event :=
  .read a.source :: a.referral.toList.map .referred

/-- A call amends the record that it is about. The id that it named is the one that the record was
read under. -/
structure Amending (config : EvaluationConfig Float) (c : Call) (a : Amendment) : Prop where
  amends : Amends config c a
  target : c.target? = some a.source.id

/-- Where a call is: its own events so far, and what is left of its script. Its own events decide
nearly everything: what other calls did in the meantime is not in them. -/
inductive Progress (config : EvaluationConfig Float) (v : Visit) :
    List Event → Script Reply → Prop
  | fresh : Progress config v [] (v.call.script config)
  | referring (a : Amendment) (r : Referral) : Amending config v.call a → a.referral = some r →
    Progress config v [.read a.source] (.step (.refer r) (v.call.heard a))
  | writing (a : Amendment) : Amending config v.call a → (a.referral.isSome → v.carrier = .ok ()) →
    Progress config v a.before (v.call.write a)
  | committed (a : Amendment) : Amending config v.call a →
    (a.referral.isSome → v.carrier = .ok ()) →
    Progress config v (a.before ++ [.wrote a.changed (some a.source.revision)]) (.done a.reply)
  | overtaken (a : Amendment) : Amending config v.call a →
    (a.referral.isSome → v.carrier = .ok ()) →
    Progress config v (a.before ++ [.stale a.changed a.source.revision])
      (.done (v.call.failed .stale))
  | opened (record : Stored) (reply : Reply) : v.call.Opens config record →
    Progress config v [.wrote record none] (.done reply)
  | missed (reply : Reply) : Progress config v [] (.done reply)
  | looked (record : Stored) (reply : Reply) : Progress config v [.read record] (.done reply)

/-! ## Advances -/

/-- All that the next step of a call can do that has not ended: what is left of the call, the desk
after the step and the event that it leaves. The desk is the one that the step finds, which other
calls may have changed since the last step of this one. -/
inductive Advance (config : EvaluationConfig Float) (v : Visit) (desk : Desk) (own : List Event) :
    Script Reply → Desk → Option Event → Prop
  /-- The call ends without a record. -/
  | missed (reply : Reply) : own = [] → Advance config v desk own (.done reply) desk none
  /-- The number of a claim is drawn in vain. -/
  | wasted (request : OpenClaim) (reply : Reply) (e : StoreError) : own = [] →
    desk.drawNumber.insert (.claim (.ofRequest (claimNumber desk.nextClaim) request)) = .error e →
    Advance config v desk own (.done reply) desk.drawNumber none
  | openedFile (a : Assessment Float) (desk' : Desk) : own = [] →
    v.call.assessment? config = some a → desk.insert (.file (.ofAssessment a)) = .ok desk' →
    Advance config v desk own (.done (.file (.ok (.ofAssessment a)))) desk'
      (some (.wrote (.file (.ofAssessment a)) none))
  | openedClaim (request : OpenClaim) (desk' : Desk) : own = [] →
    v.call = .openClaim request → Text.isBlank request.policyId = false →
    desk.drawNumber.insert (.claim (.ofRequest (claimNumber desk.nextClaim) request)) = .ok desk' →
    Advance config v desk own
      (.done (.claim (.ok (.ofRequest (claimNumber desk.nextClaim) request)))) desk'
      (some (.wrote (.claim (.ofRequest (claimNumber desk.nextClaim) request)) none))
  /-- The call reads a record and makes nothing of it. -/
  | looked (record : Stored) (reply : Reply) : own = [] →
    desk.stored? record.id = some record →
    Advance config v desk own (.done reply) desk (some (.read record))
  /-- The call reads the record that it amends. -/
  | began (a : Amendment) : own = [] → Amending config v.call a →
    desk.stored? a.source.id = some a.source →
    Advance config v desk own (v.call.carry a) desk (some (.read a.source))
  | told (a : Amendment) (r : Referral) : own = [.read a.source] → Amending config v.call a →
    a.referral = some r → v.carrier = .ok () →
    Advance config v desk own (v.call.write a) (desk.told [r]) (some (.referred r))
  /-- The carrier refuses. -/
  | untold (a : Amendment) (r : Referral) (reply : Reply) (e : CarrierError) :
    own = [.read a.source] → a.referral = some r → v.carrier = .error e →
    Advance config v desk own (.done reply) desk none
  | committed (a : Amendment) (desk' : Desk) : own = a.before → Amending config v.call a →
    (a.referral.isSome → v.carrier = .ok ()) →
    desk.update a.changed a.source.revision = .ok desk' →
    Advance config v desk own (.done a.reply) desk'
      (some (.wrote a.changed (some a.source.revision)))
  /-- The record has changed since it was read. -/
  | overtaken (a : Amendment) : own = a.before → Amending config v.call a →
    (a.referral.isSome → v.carrier = .ok ()) →
    desk.update a.changed a.source.revision = .error .stale →
    Advance config v desk own (.done (v.call.failed .stale)) desk
      (some (.stale a.changed a.source.revision))

namespace Script

variable {carrier : CarrierAnswer} {desk : Desk}

theorem turn_done (reply : Reply) :
    (done reply).turn carrier desk = ⟨.done reply, desk, none⟩ := rfl

private theorem turn_number (next : UInt64 → Script Reply) :
    (step .number next).turn carrier desk = (next desk.nextClaim).turn carrier desk.drawNumber :=
  rfl

theorem turn_step {op : DeskOp} {next : op.Answer → Script Reply} {result : op.Answer × Desk}
    (hresult : op.apply carrier desk = result) (hop : op ≠ .number) :
    (step op next).turn carrier desk = ⟨next result.1, result.2, op.event? result.1⟩ := by
  subst hresult
  cases op with
  | number => exact absurd rfl hop
  | _ => rfl

end Script

section

open Script (turn_done turn_number turn_step)

variable {config : EvaluationConfig Float} {v : Visit} {desk desk' : Desk} {own : List Event}
  {rest : Script Reply} {event : Option Event}

/-- The first step of a call. There are no events of the call yet, so its shape decides. -/
theorem Call.Shape.advance (h : v.call.Shape config rest) (hopen : ∀ reply, rest ≠ .done reply)
    (hk : desk.Keyed) :
    Advance config v desk [] (rest.turn v.carrier desk).rest (rest.turn v.carrier desk).desk
      (rest.turn v.carrier desk).event := by
  cases h with
  | refused reply _ => exact absurd rfl (hopen reply)
  | listing limit _ =>
    rw [turn_step (DeskOp.apply_pending limit) (by simp)]
    exact .missed _ rfl
  | opening a ha =>
    rw [Call.opening]
    cases hi : desk.insert (.file (.ofAssessment a)) with
    | ok desk' =>
      rw [turn_step (DeskOp.apply_insert_ok hi) (by simp)]
      exact .openedFile a desk' rfl ha hi
    | error e =>
      rw [turn_step (DeskOp.apply_insert_error hi) (by simp)]
      exact .missed _ rfl
  | numbering request hc hb =>
    rw [turn_number, Call.numbered]
    cases hi : desk.drawNumber.insert
        (.claim (.ofRequest (claimNumber desk.nextClaim) request)) with
    | ok desk' =>
      rw [turn_step (DeskOp.apply_insert_ok hi) (by simp)]
      exact .openedClaim request desk' rfl hc hb hi
    | error e =>
      rw [turn_step (DeskOp.apply_insert_error hi) (by simp)]
      exact .wasted request _ e rfl hi
  | reading id hid =>
    rw [Call.reading, turn_step (DeskOp.apply_fetch id) (by simp)]
    cases hs : desk.stored? id with
    | none => exact .missed _ rfl
    | some record =>
      obtain rfl := hk id record hs
      simp only [Call.proceed, DeskOp.event?]
      cases hc : v.call.consider config record with
      | error reply => exact .looked record reply rfl hs
      | ok a =>
        obtain ⟨ha, rfl⟩ := Call.consider_eq_ok.mp hc
        exact .began a rfl ⟨ha, hid⟩ hs

/-- The step of a call that is to write its amendment. The revision that is stored decides between
the two outcomes. -/
theorem Amending.advance {a : Amendment} (ha : Amending config v.call a)
    (hr : a.referral.isSome → v.carrier = .ok ()) {stored : Stored}
    (hs : desk.stored? a.source.id = some stored) :
    Advance config v desk a.before ((v.call.write a).turn v.carrier desk).rest
      ((v.call.write a).turn v.carrier desk).desk ((v.call.write a).turn v.carrier desk).event := by
  have hthere : desk.stored? a.changed.id = some stored := by rw [ha.amends.id_eq, hs]
  rw [Call.write]
  by_cases hrev : stored.revision = a.source.revision
  · obtain ⟨desk', hu⟩ := Desk.update_of_current hthere hrev
    rw [turn_step (DeskOp.apply_update_ok hu) (by simp)]
    exact .committed a desk' rfl ha hr hu
  · have hu := Desk.update_of_moved hthere hrev
    rw [turn_step (DeskOp.apply_update_error hu) (by simp)]
    exact .overtaken a rfl ha hr hu

/-- **What a step does.** That what was read is still there is all that is asked of the other calls.
-/
theorem Progress.advance (h : Progress config v own rest) (hopen : ∀ reply, rest ≠ .done reply)
    (hk : desk.Keyed)
    (hthere : ∀ record, .read record ∈ own → (desk.stored? record.id).isSome) :
    Advance config v desk own (rest.turn v.carrier desk).rest (rest.turn v.carrier desk).desk
      (rest.turn v.carrier desk).event := by
  cases h with
  | fresh => exact (Call.script_shape config v.call).advance hopen hk
  | referring a r ha hr =>
    cases hc : v.carrier with
    | ok u =>
      rw [turn_step (DeskOp.apply_refer_ok r) (by simp)]
      exact .told a r rfl ha hr hc
    | error e =>
      rw [turn_step (DeskOp.apply_refer_error r e) (by simp)]
      exact .untold a r _ e rfl hr hc
  | writing a ha hr =>
    -- It is to write what it has read; the record may have moved but cannot be gone.
    obtain ⟨stored, hs⟩ := Option.isSome_iff_exists.mp
      (hthere a.source (by simp [Amendment.before]))
    exact ha.advance hr hs
  | committed a _ _ => exact absurd rfl (hopen a.reply)
  | overtaken a _ _ => exact absurd rfl (hopen (v.call.failed .stale))
  | opened record reply _ => exact absurd rfl (hopen reply)
  | missed reply => exact absurd rfl (hopen reply)
  | looked record reply => exact absurd rfl (hopen reply)

/-- A call that has stored a record has ended. The write is the last step of every call that has
one. -/
theorem Progress.ended_of_wrote (h : Progress config v own rest) {record : Stored}
    {base : Option UInt64} (hw : .wrote record base ∈ own) : ∃ reply, rest = .done reply := by
  cases h with
  | committed a _ _ => exact ⟨_, rfl⟩
  | overtaken a _ _ => exact ⟨_, rfl⟩
  | opened _ reply _ => exact ⟨_, rfl⟩
  | fresh => simp at hw
  | referring a r _ _ => simp at hw
  | writing a _ _ => simp [Amendment.before] at hw
  | missed reply => simp at hw
  | looked _ reply => simp at hw

/-- A call stores a record that it opens, or the record that it amends. In the second case it has
read the record before. -/
theorem Progress.commit_cases (h : Progress config v own rest) {record : Stored}
    {base : Option UInt64} (hw : .wrote record base ∈ own) :
    own = [.wrote record none] ∧ base = none ∧ v.call.Opens config record ∨
      ∃ a, Amending config v.call a ∧ own = a.before ++ [.wrote record base] ∧
        record = a.changed ∧ base = some a.source.revision := by
  cases h with
  | committed a ha _ =>
    have heq : record = a.changed ∧ base = some a.source.revision := by
      simpa [Amendment.before] using hw
    obtain ⟨rfl, rfl⟩ := heq
    exact .inr ⟨a, ha, rfl, rfl, rfl⟩
  | opened stored reply hopens =>
    have heq : record = stored ∧ base = none := by simpa using hw
    obtain ⟨rfl, rfl⟩ := heq
    exact .inl ⟨rfl, rfl, hopens⟩
  | overtaken a _ _ => simp [Amendment.before] at hw
  | fresh => simp at hw
  | referring a r _ _ => simp at hw
  | writing a _ _ => simp [Amendment.before] at hw
  | missed reply => simp at hw
  | looked _ reply => simp at hw

/-- A call that is to replace a record is to write the amendment of the record that it read. No
other stage of a call updates anything. -/
theorem Progress.writing_of_update {changed : Stored} {expected : UInt64}
    {next : (DeskOp.update changed expected).Answer → Script Reply}
    (h : Progress config v own (.step (.update changed expected) next)) :
    ∃ a, Amending config v.call a ∧ own = a.before ∧ changed = a.changed ∧
      expected = a.source.revision ∧
      Script.step (.update changed expected) next = v.call.write a := by
  generalize hrest : Script.step (.update changed expected) next = rest at h
  cases h with
  | writing a ha hr =>
    have hop := hrest
    rw [Call.write] at hop
    injection hop with hop _
    injection hop with hchanged hexpected
    exact ⟨a, ha, rfl, hchanged, hexpected, rfl⟩
  | fresh =>
    have hshape := Call.script_shape config v.call
    rw [← hrest] at hshape
    generalize hs : Script.step (.update changed expected) next = script at hshape
    cases hshape <;> cases hs
  | _ => cases hrest

/-- Where a step leaves the call. So an account of a call can be kept from its start to its end. -/
theorem Advance.progress (h : Advance config v desk own rest desk' event) :
    Progress config v (own ++ event.toList) rest := by
  cases h with
  | missed reply ho => exact ho ▸ .missed reply
  | wasted request reply e ho _ => exact ho ▸ .missed reply
  | openedFile a _ ho hc _ => exact ho ▸ .opened _ _ (.file a hc)
  | openedClaim request _ ho hc _ _ => exact ho ▸ .opened _ _ (.claim request _ hc)
  | looked record reply ho _ => exact ho ▸ .looked record reply
  | began a ho ha hs =>
    subst ho
    unfold Call.carry
    cases hr : a.referral with
    | none =>
      have hwriting : Progress config v a.before (v.call.write a) := .writing a ha (by simp [hr])
      simpa [Amendment.before, hr] using hwriting
    | some r => exact .referring a r ha hr
  | told a r ho ha hr hc =>
    have hbefore : a.before = own ++ [.referred r] := by simp [Amendment.before, hr, ho]
    exact hbefore ▸ .writing a ha fun _ => hc
  | untold a r reply e ho _ _ => exact ho ▸ .looked a.source reply
  | committed a _ ho ha hr _ => exact ho ▸ .committed a ha hr
  | overtaken a ho ha hr _ => exact ho ▸ .overtaken a ha hr

/-- A step does what its event says. What the desk has stored changes by the event alone. -/
theorem Advance.happens (h : Advance config v desk own rest desk' event) :
    Happens desk desk' event := by
  cases h with
  | missed _ _ => exact .nothing fun _ => rfl
  | wasted request _ e _ _ => exact .nothing fun _ => by simp
  | openedFile a _ _ _ hi =>
    exact .wrote _ none (by rw [Desk.free_of_insert hi]; rfl) rfl (Desk.stored?_of_insert hi)
  | openedClaim request _ _ _ _ hi =>
    have hfree := Desk.free_of_insert hi
    rw [Desk.stored?_drawNumber] at hfree
    refine .wrote _ none (by rw [hfree]; rfl) rfl fun id => ?_
    rw [Desk.stored?_of_insert hi, Desk.stored?_drawNumber]
  | looked record _ _ hs => exact .read record hs fun _ => rfl
  | began a _ _ hs => exact .read a.source hs fun _ => rfl
  | told a r _ _ _ _ => exact .referred r fun _ => by simp
  | untold _ _ _ _ _ _ _ => exact .nothing fun _ => rfl
  | committed a _ _ ha _ hu =>
    obtain ⟨stored, hs, hrev⟩ := Desk.current_of_update hu
    exact .wrote _ _ (by rw [hs, Option.map_some, hrev]) ha.amends.revision_eq
      (Desk.stored?_of_update hu)
  | overtaken a _ _ _ hu => exact .stale _ _ (Desk.moved_of_stale hu) fun _ => rfl

end

end PolicyDesk
