import Hashgraph.Proofs.Exchange.Walk
import Hashgraph.Proofs.Exchange.Phases

/-! The order of the phases of one session. The phases may be called for at any time and with any
argument, and between the calls the replica may change at will. A session still passes its phases in
order, each of them once, and a call that is out of order leaves it as it was. -/

namespace Hashgraph

open Replica

variable {ε : Type} {session after : Session ε}

inductive Operation where
  | sendTips
  | receiveTips
  | sendBooleans
  | receiveBooleans
  | finish
deriving DecidableEq

/-- Whether an operation changes the session when it succeeds. Answering the peer does not. -/
def Operation.isMutating : Operation → Bool
  | .sendBooleans => false
  | .sendTips | .receiveTips | .receiveBooleans | .finish => true

inductive PhaseCall where
  | sendTips
  | receiveTips (received : List EventHash)
  | sendBooleans
  | receiveBooleans (received : List Bool)
  | finish

inductive Deed (ε : Type) where
  | sentTips (tips : List EventHash)
  | tookTips (received : List EventHash)
  | sentBooleans (answers : List Bool)
  | tookBooleans (received : List Bool)
  | listed (events : List ε)

def Deed.operation : Deed ε → Operation
  | .sentTips _ => .sendTips
  | .tookTips _ => .receiveTips
  | .sentBooleans _ => .sendBooleans
  | .tookBooleans _ => .receiveBooleans
  | .listed _ => .finish

namespace Session

/-- What a successful call needs of the session, and what it makes of the phase and of the sent
tips. -/
inductive Advances (session after : Session ε) : Deed ε → Prop
  | sendTips {tips : List EventHash}
    (early : session.phase.rank < Phase.booleansExchanged.rank) (unsent : session.sentTips = none)
    (phase : after.phase = session.phase) (sentTips : after.sentTips = some tips) :
    Advances session after (.sentTips tips)
  | receiveTips {received : List EventHash} (idle : session.phase = .idle)
    (phase : after.phase = .tipsExchanged) (sentTips : after.sentTips = session.sentTips) :
    Advances session after (.tookTips received)
  | sendBooleans {answers : List Bool}
    (due : session.phase = .tipsExchanged ∨ session.phase = .booleansExchanged)
    (same : after = session) : Advances session after (.sentBooleans answers)
  | receiveBooleans {sent : List EventHash} {received : List Bool}
    (due : session.phase = .tipsExchanged) (known : session.sentTips = some sent)
    (fits : sent.length = received.length) (phase : after.phase = .booleansExchanged)
    (sentTips : after.sentTips = session.sentTips) :
    Advances session after (.tookBooleans received)
  | finish {events : List ε} (due : session.phase = .booleansExchanged)
    (phase : after.phase = .finished) (sentTips : after.sentTips = session.sentTips) :
    Advances session after (.listed events)

/-- Whether an operation can never succeed on the session any more. -/
def IsPast (session : Session ε) : Operation → Prop
  | .sendTips => session.sentTips ≠ none ∨ Phase.booleansExchanged.rank ≤ session.phase.rank
  | .receiveTips => Phase.tipsExchanged.rank ≤ session.phase.rank
  | .receiveBooleans => Phase.booleansExchanged.rank ≤ session.phase.rank
  | .sendBooleans | .finish => Phase.finished.rank ≤ session.phase.rank

/-- The deeds that have changed a session at this phase, with these tips sent. The tips of the two
sides go over in either order. -/
inductive Passed : Phase → Option (List EventHash) → List (Deed ε) → Prop
  | nothing : Passed .idle none []
  | sentTips {tips : List EventHash} : Passed .idle (some tips) [.sentTips tips]
  | tookTips {received : List EventHash} : Passed .tipsExchanged none [.tookTips received]
  | bothTips {tips received : List EventHash} {opening : List (Deed ε)}
    (both : opening.Perm [.sentTips tips, .tookTips received]) :
    Passed .tipsExchanged (some tips) opening
  | booleans {tips received : List EventHash} {answers : List Bool} {opening : List (Deed ε)}
    (both : opening.Perm [.sentTips tips, .tookTips received])
    (fits : answers.length = tips.length) :
    Passed .booleansExchanged (some tips) (opening ++ [.tookBooleans answers])
  | finished {tips received : List EventHash} {answers : List Bool} {events : List ε}
    {opening : List (Deed ε)} (both : opening.Perm [.sentTips tips, .tookTips received])
    (fits : answers.length = tips.length) :
    Passed .finished (some tips) (opening ++ [.tookBooleans answers, .listed events])

theorem Passed.of_finished {sent : Option (List EventHash)} {deeds : List (Deed ε)}
    (passed : Passed .finished sent deeds) : ∃ tips received answers events opening,
      opening.Perm [.sentTips tips, .tookTips received] ∧ answers.length = tips.length ∧
        deeds = opening ++ [.tookBooleans answers, .listed events] := by
  cases passed with
  | finished both fits => exact ⟨_, _, _, _, _, both, fits, rfl⟩

namespace Advances

variable {deed : Deed ε} {operation : Operation}

theorem rank (advances : session.Advances after deed) :
    after.phase.rank = session.phase.rank ∨ after.phase.rank = session.phase.rank + 1 := by
  cases advances with
  | sendTips _ _ phase _ => exact .inl (by rw [phase])
  | receiveTips idle phase _ => exact .inr (by rw [phase, idle]; rfl)
  | sendBooleans _ same => exact .inl (by rw [same])
  | receiveBooleans due _ _ phase _ => exact .inr (by rw [phase, due]; rfl)
  | finish due phase _ => exact .inr (by rw [phase, due]; rfl)

theorem sentTips_ne_none (advances : session.Advances after deed)
    (sent : session.sentTips ≠ none) : after.sentTips ≠ none := by
  cases advances with
  | sendTips _ unsent _ _ => exact (sent unsent).elim
  | receiveTips _ _ sentTips | receiveBooleans _ _ _ _ sentTips | finish _ _ sentTips =>
    rwa [sentTips]
  | sendBooleans _ same => rwa [same]

theorem not_isPast (advances : session.Advances after deed) : ¬ session.IsPast deed.operation := by
  cases advances with
  | sendTips early unsent _ _ =>
    rintro (sent | late)
    · exact sent unsent
    · exact Nat.not_le.mpr early late
  | receiveTips idle _ _ => simp [IsPast, Deed.operation, idle, Phase.rank]
  | sendBooleans due _ =>
    rcases due with due | due <;> simp [IsPast, Deed.operation, due, Phase.rank]
  | receiveBooleans due _ _ _ _ => simp [IsPast, Deed.operation, due, Phase.rank]
  | finish due _ _ => simp [IsPast, Deed.operation, due, Phase.rank]

theorem isPast (advances : session.Advances after deed) (mutating : deed.operation.isMutating) :
    after.IsPast deed.operation := by
  cases advances with
  | sendTips _ _ _ sentTips => exact .inl (by simp [sentTips])
  | receiveTips _ phase _ => simp [IsPast, Deed.operation, phase]
  | sendBooleans _ _ => contradiction
  | receiveBooleans _ _ _ phase _ => simp [IsPast, Deed.operation, phase]
  | finish _ phase _ => simp [IsPast, Deed.operation, phase]

theorem isPast_mono (advances : session.Advances after deed) (past : session.IsPast operation) :
    after.IsPast operation := by
  have rank_le : session.phase.rank ≤ after.phase.rank := by
    have := advances.rank
    omega
  cases operation with
  | sendTips => exact past.imp advances.sentTips_ne_none rank_le.trans'
  | receiveTips | sendBooleans | receiveBooleans | finish => exact Nat.le_trans past rank_le

/-- A deed that changes the session comes last of those before it. -/
theorem passed {deeds : List (Deed ε)} (advances : session.Advances after deed)
    (passed : Passed session.phase session.sentTips deeds) : Passed after.phase after.sentTips
      (deeds ++ [deed].filter fun deed => deed.operation.isMutating) := by
  cases advances with
  | sendTips _ unsent phase sentTips =>
    rw [unsent] at passed
    rw [phase, sentTips]
    generalize session.phase = before at passed ⊢
    cases passed with
    | nothing => exact .sentTips
    | tookTips => exact .bothTips (.swap ..)
  | receiveTips idle phase sentTips =>
    rw [idle] at passed
    rw [phase, sentTips]
    generalize session.sentTips = sent at passed ⊢
    cases passed with
    | nothing => exact .tookTips
    | sentTips => exact .bothTips (.refl _)
  | sendBooleans _ same =>
    rw [same]
    exact (List.append_nil deeds).symm ▸ passed
  | receiveBooleans due known fits phase sentTips =>
    rw [due, known] at passed
    rw [phase, sentTips, known]
    cases passed with
    | bothTips both => exact .booleans both fits.symm
  | finish due phase sentTips =>
    rw [due] at passed
    rw [phase, sentTips]
    generalize session.sentTips = sent at passed ⊢
    cases passed with
    | booleans both fits =>
      rw [List.append_assoc]
      exact .finished both fits

end Advances
end Session

namespace Replica

variable {replica : Replica ε} {fault : Fault}

def PhaseResult.map {α β : Type} (answer : α → β) : PhaseResult ε α → PhaseResult ε β
  | .ok value session => .ok (answer value) session
  | .error fault session => .error fault session

theorem PhaseResult.map_eq_ok {α β : Type} {answer : α → β} {result : PhaseResult ε α} {value : β} :
    result.map answer = .ok value after ↔ ∃ told, result = .ok told after ∧ answer told = value := by
  cases result <;> simp [map, and_comm]

theorem PhaseResult.map_eq_error {α β : Type} {answer : α → β} {result : PhaseResult ε α} :
    result.map answer = .error fault after ↔ result = .error fault after := by
  cases result <;> simp [map]

theorem sendBooleans_eq_ok {answers : List Bool} :
    replica.sendBooleans session = .ok answers after ↔
      (session.phase = .tipsExchanged ∨ session.phase = .booleansExchanged) ∧
        answers = replica.tipBooleans session.receivedTips ∧ after = session := by
  unfold sendBooleans
  split
  · rename_i due
    simp [due, eq_comm]
  · rename_i due
    simp [due, eq_comm]
  · rename_i early
    simp [early]
  · rename_i late
    simp [late]

theorem foldl_applyBoolean_sentTips (answers : List (EventHash × Bool)) :
    (answers.foldl replica.applyBoolean session).sentTips = session.sentTips := by
  induction answers generalizing session with
  | nil => rfl
  | cons answer rest ih =>
    rw [List.foldl_cons, ih]
    unfold applyBoolean
    split <;> rfl

variable [DagEvent ε]

@[simp] theorem walk_sentTips {cursor : Option EventHash} :
    (replica.walk session cursor).sentTips = session.sentTips := by
  fun_induction replica.walk session cursor with
  | case1 | case2 | case3 | case5 => rfl
  | case4 => rfl
  | case6 session hash shadow found active unknown fresh ih =>
    rw [ih, Session.enqueue_sentTips]

theorem walkAll_sentTips : (replica.walkAll session).sentTips = session.sentTips := by
  unfold walkAll
  generalize session.workingTips = tips
  induction tips using List.reverseRecOn with
  | nil => rfl
  | append_singleton tips tip ih => rw [walkFrom_concat, walk_sentTips, ih]

end Replica

namespace PhaseCall

variable [DagEvent ε] {replica : Replica ε} {call : PhaseCall} {fault : Fault} {deed : Deed ε}

def run (call : PhaseCall) (replica : Replica ε) (session : Session ε) :
    PhaseResult ε (Deed ε) :=
  match call with
  | .sendTips => (replica.sendTips session).map .sentTips
  | .receiveTips received => (replica.receiveTips session received).map fun _ => .tookTips received
  | .sendBooleans => (replica.sendBooleans session).map .sentBooleans
  | .receiveBooleans received =>
    (replica.receiveBooleans session received).map fun _ => .tookBooleans received
  | .finish => (replica.finish session).map .listed

/-- A call that fails leaves the session as it was. -/
theorem eq_of_run_eq_error (failed : call.run replica session = .error fault after) :
    after = session := by
  cases call with
  | sendTips =>
    have failed := PhaseResult.map_eq_error.mp failed
    unfold Replica.sendTips at failed
    split_ifs at failed <;> cases failed <;> rfl
  | receiveTips received =>
    have failed := PhaseResult.map_eq_error.mp failed
    unfold Replica.receiveTips at failed
    split_ifs at failed
    cases failed
    rfl
  | sendBooleans =>
    have failed := PhaseResult.map_eq_error.mp failed
    unfold Replica.sendBooleans at failed
    split at failed <;> cases failed <;> rfl
  | receiveBooleans received =>
    have failed := PhaseResult.map_eq_error.mp failed
    unfold Replica.receiveBooleans at failed
    split_ifs at failed
    · split at failed
      · cases failed
        rfl
      · split_ifs at failed
        cases failed
        rfl
    · cases failed
      rfl
  | finish =>
    have failed := PhaseResult.map_eq_error.mp failed
    unfold Replica.finish at failed
    split_ifs at failed
    cases failed
    rfl

theorem advances (succeeded : call.run replica session = .ok deed after) :
    session.Advances after deed := by
  cases call with
  | sendTips =>
    obtain ⟨tips, sent, rfl⟩ := PhaseResult.map_eq_ok.mp succeeded
    obtain ⟨early, unsent, rfl, rfl⟩ := sendTips_eq_ok.mp sent
    exact .sendTips early unsent rfl rfl
  | receiveTips received =>
    obtain ⟨_, taken, rfl⟩ := PhaseResult.map_eq_ok.mp succeeded
    obtain ⟨idle, rfl⟩ := receiveTips_eq_ok.mp taken
    exact .receiveTips idle rfl foldl_applyTip_told.1
  | sendBooleans =>
    obtain ⟨answers, answered, rfl⟩ := PhaseResult.map_eq_ok.mp succeeded
    obtain ⟨due, -, same⟩ := sendBooleans_eq_ok.mp answered
    exact .sendBooleans due same
  | receiveBooleans received =>
    obtain ⟨_, taken, rfl⟩ := PhaseResult.map_eq_ok.mp succeeded
    obtain ⟨due, sent, known, fits, rfl⟩ := receiveBooleans_eq_ok.mp taken
    exact .receiveBooleans due known fits rfl (foldl_applyBoolean_sentTips _)
  | finish =>
    obtain ⟨events, finished, rfl⟩ := PhaseResult.map_eq_ok.mp succeeded
    obtain ⟨due, rfl, rfl⟩ := finish_eq_ok.mp finished
    exact .finish due rfl walkAll_sentTips

/-- A finished session is past every operation, so every call fails. -/
theorem run_of_finished (finished : session.phase = .finished) (call : PhaseCall)
    (replica : Replica ε) : ∃ fault, call.run replica session = .error fault session := by
  cases ran : call.run replica session with
  | ok deed after =>
    refine ((advances ran).not_isPast ?_).elim
    cases deed <;> simp [Session.IsPast, Deed.operation, finished, Phase.rank]
  | error fault after => exact ⟨fault, by rw [eq_of_run_eq_error ran]⟩

end PhaseCall

/-- What happens next: the replica becomes another one, or a phase is called for. -/
inductive Act (ε : Type) where
  | change (move : Replica ε → Replica ε)
  | call (call : PhaseCall)

def Act.effect : Act ε → Replica ε → Replica ε
  | .change move => move
  | .call _ => id

/-- A session, the replica that its phases read, and what its calls have done so far. -/
structure Course (ε : Type) where
  replica : Replica ε
  session : Session ε
  deeds : List (Deed ε) := []

namespace Course

variable [DagEvent ε] {course : Course ε} {acts : List (Act ε)}

def act (course : Course ε) : Act ε → Course ε
  | .change move => { course with replica := move course.replica }
  | .call call =>
    match call.run course.replica course.session with
    | .ok deed session => { course with session, deeds := course.deeds ++ [deed] }
    | .error _ session => { course with session }

def actAll (course : Course ε) (acts : List (Act ε)) : Course ε := acts.foldl act course

theorem act_call (course : Course ε) (call : PhaseCall) : course.act (.call call) = course ∨
    ∃ deed after, course.session.Advances after deed ∧
      course.act (.call call) = { course with session := after, deeds := course.deeds ++ [deed] } := by
  unfold act
  dsimp only
  cases ran : call.run course.replica course.session with
  | ok deed after => exact .inr ⟨deed, after, PhaseCall.advances ran, rfl⟩
  | error fault after => exact .inl (by rw [PhaseCall.eq_of_run_eq_error ran])

/-- What holds at first and is kept whenever the session advances holds after all acts. -/
theorem actAll_induction {motive : Session ε → List (Deed ε) → Prop}
    (start : motive course.session course.deeds)
    (advance : ∀ {session after : Session ε} {deeds : List (Deed ε)} {deed : Deed ε},
      session.Advances after deed → motive session deeds → motive after (deeds ++ [deed])) :
    motive (course.actAll acts).session (course.actAll acts).deeds := by
  induction acts using List.reverseRecOn with
  | nil => exact start
  | append_singleton acts last ih =>
    rw [actAll, List.foldl_concat, ← actAll]
    cases last with
    | change move => exact ih
    | call call =>
      obtain same | ⟨deed, after, advances, same⟩ := (course.actAll acts).act_call call
      · rwa [same]
      · rw [same]
        exact advance advances ih

theorem actAll_replica (course : Course ε) (acts : List (Act ε)) :
    (course.actAll acts).replica =
      acts.foldl (fun replica act => act.effect replica) course.replica := by
  induction acts generalizing course with
  | nil => rfl
  | cons first rest ih =>
    refine (ih (course.act first)).trans (congrArg (List.foldl _ · rest) ?_)
    cases first with
    | change move => rfl
    | call call =>
      obtain same | ⟨_, _, _, same⟩ := course.act_call call <;> rw [same] <;> rfl

/-- Of an operation that changes the session at most one call succeeds, and then its time is over. -/
theorem countP_deeds_le_one {operation : Operation} (mutating : operation.isMutating)
    (fresh : course.deeds = []) :
    (course.actAll acts).deeds.countP (·.operation = operation) ≤ 1 := by
  suffices counted : ((course.actAll acts).deeds.countP (·.operation = operation) = 0) ∨
      (course.actAll acts).deeds.countP (·.operation = operation) = 1 ∧
        (course.actAll acts).session.IsPast operation by omega
  refine actAll_induction (motive := fun session deeds => deeds.countP (·.operation = operation) = 0 ∨
    deeds.countP (·.operation = operation) = 1 ∧ session.IsPast operation) ?_ ?_
  · rw [fresh]
    exact .inl rfl
  · intro session after deeds deed advances counted
    rw [List.countP_append, List.countP_singleton]
    by_cases own : deed.operation = operation
    · subst own
      have none : deeds.countP (·.operation = deed.operation) = 0 :=
        counted.resolve_right fun once => advances.not_isPast once.2
      exact .inr ⟨by simp [none], advances.isPast mutating⟩
    · have other : (if decide (deed.operation = operation) = true then 1 else 0) = 0 := by
        simp [own]
      rw [other, Nat.add_zero]
      exact counted.imp_right (And.imp_right advances.isPast_mono)

/-- From a fresh session on, the deeds that changed it are as its phase says. -/
theorem passed_of_start {localName peerName : String} {role : Role}
    (opened : course.session = .start localName peerName role) (fresh : course.deeds = []) :
    Session.Passed (course.actAll acts).session.phase (course.actAll acts).session.sentTips
      ((course.actAll acts).deeds.filter fun deed => deed.operation.isMutating) := by
  refine actAll_induction (motive := fun session deeds => Session.Passed session.phase
    session.sentTips (deeds.filter fun deed => deed.operation.isMutating)) ?_ ?_
  · rw [opened, fresh]
    exact .nothing
  · intro session after deeds deed advances passed
    rw [List.filter_append]
    exact advances.passed passed

/-- Whatever phases are called for, and however the replica changes between the calls: the calls do
not change the replica, a call that fails leaves the session as it was, the phase stays or moves on
by one, and no operation changes the session twice. A fresh session is finished only after each of
the four operations that change it, the peer's answers coming after the sent tips and in their
number; and on a finished session every call fails. -/
theorem actAll_orderly (replica : Replica ε) (session : Session ε) (acts : List (Act ε)) :
    let course := ({ replica, session } : Course ε).actAll acts
    course.replica = acts.foldl (fun replica act => act.effect replica) replica ∧
    (∀ (call : PhaseCall) fault after,
      call.run course.replica course.session = .error fault after → after = course.session) ∧
    (∀ act, (course.act act).session.phase.rank = course.session.phase.rank ∨
      (course.act act).session.phase.rank = course.session.phase.rank + 1) ∧
    (∀ operation : Operation, operation.isMutating →
      course.deeds.countP (·.operation = operation) ≤ 1) ∧
    (∀ localName peerName role, session = .start localName peerName role →
      course.session.phase = .finished → ∃ tips received answers events opening,
        opening.Perm [.sentTips tips, .tookTips received] ∧ answers.length = tips.length ∧
          course.deeds.filter (fun deed => deed.operation.isMutating) =
            opening ++ [.tookBooleans answers, .listed events]) ∧
    (course.session.phase = .finished → ∀ (call : PhaseCall) other, ∃ fault,
      call.run other course.session = .error fault course.session) := by
  intro course
  refine ⟨actAll_replica .., fun _ _ _ => PhaseCall.eq_of_run_eq_error, ?_,
    fun _ mutating => countP_deeds_le_one mutating rfl, ?_, PhaseCall.run_of_finished⟩
  · intro act
    cases act with
    | change move => exact .inl rfl
    | call call =>
      obtain same | ⟨deed, after, advances, same⟩ := course.act_call call
      · exact .inl (by rw [same])
      · rw [same]
        exact advances.rank
  · rintro localName peerName role rfl finished
    have passed : Session.Passed course.session.phase course.session.sentTips
        (course.deeds.filter fun deed => deed.operation.isMutating) := passed_of_start rfl rfl
    rw [finished] at passed
    exact passed.of_finished

def unruly (first second : ε) : List (Act ε) :=
  [.call .finish, .call .sendBooleans, .change (·.perform (.add first)),
    .call (.receiveTips [DagEvent.hash second]), .call (.receiveBooleans []), .call .sendTips,
    .call (.receiveTips []), .change (·.perform (.add second)), .call .sendTips,
    .call .sendBooleans, .call (.receiveBooleans []), .call (.receiveBooleans [true]),
    .call .sendTips, .call .finish, .call .finish]

theorem actAll_orderly_unruly :
    let course := ({ replica := ∅, session := .start "ann" "bob" .caller } :
      Course Outline).actAll (unruly (forkedOutline 0) (forkedOutline 1))
    course.session.phase = .finished ∧
    (∃ tips received answers events opening,
      opening.Perm [.sentTips tips, .tookTips received] ∧ answers.length = tips.length ∧
        course.deeds.filter (fun deed => deed.operation.isMutating) =
          opening ++ [.tookBooleans answers, .listed events]) ∧
    ∀ (call : PhaseCall) other, ∃ fault,
      call.run other course.session = .error fault course.session := by
  have finished : (({ replica := ∅, session := .start "ann" "bob" .caller } :
      Course Outline).actAll (unruly (forkedOutline 0) (forkedOutline 1))).session.phase =
        .finished := by
    decide +kernel
  obtain ⟨-, -, -, -, complete, closed⟩ := actAll_orderly ∅ (.start "ann" "bob" .caller)
    (unruly (forkedOutline 0) (forkedOutline 1))
  exact ⟨finished, complete _ _ _ rfl finished, closed finished⟩

end Course
end Hashgraph
