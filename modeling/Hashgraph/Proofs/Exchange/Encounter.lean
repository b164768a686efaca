import Hashgraph.Proofs.Exchange.Phases
import Hashgraph.Proofs.Replica.Run

/-! One session against a peer that may say anything, on a replica that changes between the phases.
How it changes is left open here. A phase that fails leaves the session as it was, and so does
answering the peer; neither is a step. -/

namespace Hashgraph

open DagEvent Replica

variable {ε : Type} [DagEvent ε]

/-- One command of a caller, which may offer events of the set only. -/
def Replica.Changes (events : Set ε) (before after : Replica ε) : Prop :=
  ∃ command, (∀ event, command = .add event → event ∈ events) ∧ after = before.perform command

theorem Replica.Gathered.changes {events : Set ε} {before after : Replica ε}
    (gathered : Gathered events before) (ascending : IsAscending events)
    (changes : Changes events before after) : Gathered events after := by
  obtain ⟨command, offered, rfl⟩ := changes
  have offers : Offers events [command] := fun event mem =>
    offered event (List.mem_singleton.mp mem).symm
  exact gathered.performAll ascending offers

def Replica.Adds (events : Set ε) (before after : Replica ε) : Prop :=
  ∃ event ∈ events, after = before.perform (.add event)

theorem Replica.Adds.changes {events : Set ε} {before after : Replica ε}
    (adds : Adds events before after) : Changes events before after := by
  obtain ⟨event, mem, rfl⟩ := adds
  exact ⟨.add event, fun other same => Command.add.inj same ▸ mem, rfl⟩

structure Encounter (ε : Type) where
  replica : Replica ε
  session : Session ε
  past : List (Replica ε) := []
  /-- The replica as it was when it took the peer's tips. -/
  snapshot : Option (Replica ε) := none

namespace Encounter

variable {moves : Replica ε → Replica ε → Prop} {d d' : Encounter ε}

section Steps

omit [DagEvent ε]

def start (replica : Replica ε) (localName peerName : String) (role : Role) : Encounter ε :=
  { replica, session := .start localName peerName role }

def states (d : Encounter ε) : List (Replica ε) := d.replica :: d.past

end Steps

/-- What can happen next: the replica moves, or a phase succeeds with whatever the peer has said. -/
inductive Step (moves : Replica ε → Replica ε → Prop) (d : Encounter ε) : Encounter ε → Prop
  | move {after : Replica ε} (moved : moves d.replica after) :
    Step moves d { d with replica := after, past := d.replica :: d.past }
  | sendTips {tips : List EventHash} {session : Session ε}
    (sent : d.replica.sendTips d.session = .ok tips session) : Step moves d { d with session }
  | receiveTips {received : List EventHash} {session : Session ε}
    (taken : d.replica.receiveTips d.session received = .ok () session) :
    Step moves d { d with session, snapshot := some d.replica }
  | receiveBooleans {received : List Bool} {session : Session ε}
    (taken : d.replica.receiveBooleans d.session received = .ok () session) :
    Step moves d { d with session }

abbrev Steps (moves : Replica ε → Replica ε → Prop) : Encounter ε → Encounter ε → Prop :=
  Relation.ReflTransGen (Step moves)

theorem Step.mono {others : Replica ε → Replica ε → Prop}
    (moved : ∀ {before after : Replica ε}, moves before after → others before after)
    (step : Step moves d d') : Step others d d' := by
  cases step with
  | move move => exact .move (moved move)
  | sendTips sent => exact .sendTips sent
  | receiveTips taken => exact .receiveTips taken
  | receiveBooleans taken => exact .receiveBooleans taken

theorem Step.states_subset (step : Step moves d d') : d.states ⊆ d'.states := by
  cases step with
  | move => exact List.subset_cons_self _ _
  | sendTips | receiveTips | receiveBooleans => exact List.Subset.refl _

variable {replica : Replica ε} {localName peerName : String} {role : Role}

/-- What every move keeps holds of all states of the replica. -/
theorem Steps.forall_states {good : Replica ε → Prop}
    (keeps : ∀ {before after : Replica ε}, moves before after → good before → good after)
    (first : good replica) (steps : Steps moves (start replica localName peerName role) d) :
    ∀ state ∈ d.states, good state := by
  induction steps with
  | refl => exact fun state mem => List.mem_singleton.mp mem ▸ first
  | tail _ step ih =>
    cases step with
    | move moved =>
      exact List.forall_mem_cons.mpr ⟨keeps moved (ih _ List.mem_cons_self), ih⟩
    | sendTips | receiveTips | receiveBooleans => exact ih

theorem Steps.gathered {events : Set ε} {fresh : Replica ε} {commands : List (Command ε)}
    (ascending : IsAscending events) (starts : Start events fresh) (offers : Offers events commands)
    (steps : Steps (Changes events) (start (fresh.performAll commands) localName peerName role) d) :
    ∀ state ∈ d.states, Gathered events state :=
  steps.forall_states (fun changes gathered => gathered.changes ascending changes)
    (starts.gathered.performAll ascending offers)

/-- What the first phase brings about in an untouched session, for the replica as it is then, and
what the later phases keep. -/
structure Endures (good : Replica ε → Prop) (motive : Replica ε → Session ε → Prop) : Prop where
  receiveTips : ∀ {snapshot : Replica ε} {session after : Session ε} {received : List EventHash},
    good snapshot → session.Untouched → snapshot.receiveTips session received = .ok () after →
    motive snapshot after
  sendTips : ∀ {snapshot replica : Replica ε} {session after : Session ε} {tips : List EventHash},
    motive snapshot session → replica.sendTips session = .ok tips after → motive snapshot after
  receiveBooleans : ∀ {snapshot replica : Replica ε} {session after : Session ε}
    {received : List Bool}, good snapshot → motive snapshot session →
    replica.receiveBooleans session received = .ok () after → motive snapshot after

theorem Steps.endures {good : Replica ε → Prop} {motive : Replica ε → Session ε → Prop}
    (endures : Endures good motive) (steps : Steps moves (start replica localName peerName role) d)
    (states : ∀ state ∈ d.states, good state) :
    d.session.Untouched ∨ d.session.phase ≠ .idle ∧
      ∃ snapshot ∈ d.states, d.snapshot = some snapshot ∧ motive snapshot d.session := by
  induction steps with
  | refl => exact .inl (Session.untouched_start localName peerName role)
  | tail _ step ih =>
    have before := fun state mem => states state (step.states_subset mem)
    have sofar := ih before
    cases step with
    | move moved =>
      refine sofar.imp_right (And.imp_right ?_)
      rintro ⟨snapshot, mem, known⟩
      exact ⟨snapshot, List.mem_cons_of_mem _ mem, known⟩
    | sendTips sent =>
      refine sofar.imp ?_ ?_
      · obtain ⟨-, -, -, rfl⟩ := sendTips_eq_ok.mp sent
        exact fun untouched =>
          ⟨untouched.idle, untouched.sendList, untouched.queued, untouched.marks⟩
      · rintro ⟨busy, snapshot, mem, known, holds⟩
        refine ⟨?_, snapshot, mem, known, endures.sendTips holds sent⟩
        obtain ⟨-, -, -, rfl⟩ := sendTips_eq_ok.mp sent
        exact busy
    | receiveTips taken =>
      obtain ⟨idle, left⟩ := receiveTips_eq_ok.mp taken
      have untouched := sofar.resolve_right fun busy => busy.1 idle
      refine .inr ⟨?_, _, List.mem_cons_self, rfl,
        endures.receiveTips (before _ List.mem_cons_self) untouched taken⟩
      rw [left]
      exact fun idle => Phase.noConfusion idle
    | receiveBooleans taken =>
      obtain ⟨ready, sent, -, -, left⟩ := receiveBooleans_eq_ok.mp taken
      obtain ⟨-, snapshot, mem, known, holds⟩ := sofar.resolve_left fun untouched =>
        Phase.noConfusion (untouched.idle.symm.trans ready)
      refine .inr ⟨?_, snapshot, mem, known,
        endures.receiveBooleans (before snapshot mem) holds taken⟩
      rw [left]
      exact fun idle => Phase.noConfusion idle

/-- In its last phase a session has taken the peer's tips. -/
theorem Steps.endures_ready {good : Replica ε → Prop} {motive : Replica ε → Session ε → Prop}
    (endures : Endures good motive) (steps : Steps moves (start replica localName peerName role) d)
    (states : ∀ state ∈ d.states, good state) (ready : d.session.phase = .booleansExchanged) :
    ∃ snapshot ∈ d.states, d.snapshot = some snapshot ∧ motive snapshot d.session :=
  ((steps.endures endures states).resolve_left fun untouched =>
    Phase.noConfusion (untouched.idle.symm.trans ready)).2

theorem Steps.since (steps : Steps moves (start replica localName peerName role) d)
    {snapshot : Replica ε} (taken : d.snapshot = some snapshot) :
    Relation.ReflTransGen moves snapshot d.replica := by
  induction steps with
  | refl => cases taken
  | tail _ step ih =>
    cases step with
    | move moved => exact (ih taken).tail moved
    | sendTips | receiveBooleans => exact ih taken
    | receiveTips =>
      cases taken
      exact .refl

/-- What a session has learnt of the peer once it has taken the peer's tips. -/
inductive Learnt (snapshot : Replica ε) (session : Session ε) : Prop
  | tips {received : List EventHash} (phase : session.phase = .tipsExchanged)
    (briefed : snapshot.Briefed received session)
  | answers {asked : Replica ε} {received sent : List EventHash} {answers : List Bool}
    {earlier : Session ε} (phase : session.phase = .booleansExchanged)
    (briefed : snapshot.Briefed received earlier) (known : session.sentTips = some sent)
    (answered : asked.Answered (sent.zip answers) earlier session)

theorem endures_learnt : Endures (ε := ε) Tracked Learnt where
  receiveTips tracked untouched taken := by
    obtain ⟨briefed, phase, -, -⟩ := untouched.receiveTips tracked taken
    exact .tips phase briefed
  sendTips learnt sent := by
    obtain ⟨early, unsent, -, rfl⟩ := sendTips_eq_ok.mp sent
    cases learnt with
    | tips phase briefed =>
      exact .tips phase
        ⟨briefed.filed.congr rfl rfl, briefed.marks, briefed.mem_sendList, briefed.workingTips⟩
    | answers phase => exact (early.ne (congrArg Phase.rank phase)).elim
  receiveBooleans tracked learnt taken := by
    have ready := (receiveBooleans_eq_ok.mp taken).1
    cases learnt with
    | tips phase briefed =>
      have nodup := briefed.workingTips ▸ tracked.nodup.filter _
      obtain ⟨-, sent, known, answered, phase⟩ := receiveBooleans_answered nodup taken
      exact .answers phase briefed (answered.sentTips.trans known) answered
    | answers phase => cases ready.symm.trans phase

theorem steps_move {after : Replica ε} (moved : Relation.ReflTransGen moves d.replica after) :
    ∃ past, Steps moves d { d with replica := after, past } := by
  induction moved with
  | refl => exact ⟨d.past, .refl⟩
  | tail _ moved ih =>
    obtain ⟨past, steps⟩ := ih
    exact ⟨_, steps.tail (.move moved)⟩

/-- Whatever the peer says, and however the replica moves before it takes the peer's tips and before
it takes the answers, the session gets to its last phase. -/
theorem exists_ready (localName peerName : String) (role : Role) (received : List EventHash)
    {answers : List Bool} {snapshot after : Replica ε}
    (fits : replica.tips.length = answers.length)
    (before : Relation.ReflTransGen moves replica snapshot)
    (between : Relation.ReflTransGen moves snapshot after) (tracked : snapshot.Tracked) :
    ∃ d briefed, Steps moves (start replica localName peerName role) d ∧
      d.session.phase = .booleansExchanged ∧ d.replica = after ∧ d.snapshot = some snapshot ∧
      d.session.sentTips = some replica.tips ∧ snapshot.Briefed received briefed ∧
      after.Answered (replica.tips.zip answers) briefed d.session := by
  obtain ⟨opened, sent, untouched, sentTips⟩ : ∃ session : Session ε,
      replica.sendTips (.start localName peerName role) = .ok replica.tips session ∧
        session.Untouched ∧ session.sentTips = some replica.tips :=
    ⟨_, sendTips_eq_ok.mpr ⟨by simp only [Session.start]; decide, rfl, rfl, rfl⟩,
      ⟨rfl, rfl, rfl, rfl⟩, rfl⟩
  obtain ⟨told, taken⟩ : ∃ session, snapshot.receiveTips opened received = .ok () session :=
    ⟨_, receiveTips_eq_ok.mpr ⟨untouched.idle, rfl⟩⟩
  obtain ⟨briefed, phase, same, -⟩ := untouched.receiveTips tracked taken
  obtain ⟨settled, asked⟩ : ∃ session, after.receiveBooleans told answers = .ok () session :=
    ⟨_, receiveBooleans_eq_ok.mpr ⟨phase, _, same.trans sentTips, fits, rfl⟩⟩
  have nodup : told.workingTips.Nodup := briefed.workingTips ▸ tracked.nodup.filter _
  obtain ⟨-, _, known, answered, ready⟩ := receiveBooleans_answered nodup asked
  cases (same.trans sentTips).symm.trans known
  have first : Steps moves (start replica localName peerName role) ⟨replica, opened, [], none⟩ :=
    .single (.sendTips sent)
  obtain ⟨past, moved⟩ := steps_move (d := ⟨replica, opened, [], none⟩) before
  obtain ⟨later, movedOn⟩ := steps_move (d := ⟨snapshot, told, past, some snapshot⟩) between
  exact ⟨_, told, (((first.trans moved).tail (.receiveTips taken)).trans movedOn).tail
    (.receiveBooleans asked), ready, rfl, rfl, answered.sentTips.trans (same.trans sentTips),
    briefed, answered⟩

end Encounter
end Hashgraph
