import Hashgraph.Proofs.Exchange.Phases
import Hashgraph.Proofs.Exchange.Pursuit

/-! One session of a sender while both replicas change. The phases of the session and the answers
of the receiver may come between any intake and any sweep on either side, so that tips, answers,
the snapshot and the walks may all belong to different states. What ties them together is that the
receiver covers for good whatever it once had: each mark of the session is covered, and so is
every tip and every affirmed answer that is still under way. -/

namespace Hashgraph

open DagEvent ShadowGraph Replica

variable {ε : Type} [DagEvent ε]

/-- The two replicas, the sender's session, and what the receiver last told. -/
structure Dialogue (ε : Type) where
  sender : Replica ε := ∅
  receiver : Replica ε := ∅
  session : Session ε
  toldTips : Option (List EventHash) := none
  toldAnswers : Option (List Bool) := none
  snapshot : Option (Replica ε) := none

namespace Dialogue

variable {events : Set ε} {d d' : Dialogue ε}

omit [DagEvent ε] in
def start (localName peerName : String) (role : Role) : Dialogue ε :=
  { session := .start localName peerName role }

/-- What can happen next. -/
inductive Step (events : Set ε) (d : Dialogue ε) : Dialogue ε → Prop
  | sender {after : Replica ε} (step : Replica.Step events d.sender after) :
    Step events d { d with sender := after }
  | receiver {after : Replica ε} (step : Replica.Step events d.receiver after) :
    Step events d { d with receiver := after }
  | sendTips {tips : List EventHash} {session : Session ε}
    (sent : d.sender.sendTips d.session = .ok tips session) :
    Step events d { d with session }
  | tellTips : Step events d { d with toldTips := some d.receiver.tips }
  | takeTips {tips : List EventHash} {session : Session ε} (told : d.toldTips = some tips)
    (taken : d.sender.receiveTips d.session tips = .ok () session) :
    Step events d { d with session, snapshot := some d.sender }
  | tellAnswers {sent : List EventHash} (asked : d.session.sentTips = some sent) :
    Step events d { d with toldAnswers := some (d.receiver.tipBooleans sent) }
  | takeAnswers {answers : List Bool} {session : Session ε} (told : d.toldAnswers = some answers)
    (taken : d.sender.receiveBooleans d.session answers = .ok () session) :
    Step events d { d with session }

def CoversAll (events : Set ε) (d : Dialogue ε) (hashes : Set EventHash) : Prop :=
  ∀ {event : ε}, event ∈ events → hash event ∈ hashes → d.receiver.Covers event

/-- The invariant across the states of both replicas. -/
structure Sound (events : Set ε) (d : Dialogue ε) : Prop where
  sender : Coherent events d.sender
  receiver : Coherent events d.receiver
  toldTips : ∀ {tips : List EventHash}, d.toldTips = some tips →
    d.CoversAll events {hash | hash ∈ tips}
  toldAnswers : ∀ {answers : List Bool}, d.toldAnswers = some answers →
    ∃ sent, d.session.sentTips = some sent ∧
      d.CoversAll events {hash | (hash, true) ∈ sent.zip answers}
  session : d.session.Untouched ∨ d.session.phase ≠ .idle ∧
    ∃ snapshot, d.snapshot = some snapshot ∧ Coherent events snapshot ∧
      Steps events snapshot d.sender ∧ Pursues events snapshot (redundant events d.sender d.receiver) none
        d.session

namespace Sound

theorem start (localName peerName : String) (role : Role) :
    (Dialogue.start localName peerName role).Sound events where
  sender := .empty
  receiver := .empty
  toldTips told := by contradiction
  toldAnswers told := by contradiction
  session := .inl (Session.untouched_start localName peerName role)

theorem senderStep (sound : d.Sound events) (history : IsHistory events) {after : Replica ε}
    (step : Replica.Step events d.sender after) : Sound events { d with sender := after } where
  sender := sound.sender.step history step
  receiver := sound.receiver
  toldTips := sound.toldTips
  toldAnswers := sound.toldAnswers
  session := by
    refine sound.session.imp_right (And.imp_right ?_)
    rintro ⟨snapshot, taken, coherent, steps, pursues⟩
    refine ⟨snapshot, taken, coherent, steps.tail step, pursues.mono ?_⟩
    rintro event ⟨mem, covered | low⟩
    · exact ⟨mem, .inl covered⟩
    · exact ⟨mem, .inr (Int64.le_trans low step.watermark_le)⟩

theorem receiverStep (sound : d.Sound events) (history : IsHistory events) {after : Replica ε}
    (step : Replica.Step events d.receiver after) :
    Sound events { d with receiver := after } := by
  have covers {event : ε} (covered : d.receiver.Covers event) : after.Covers event :=
    Steps.covers (.single step) sound.receiver history covered
  refine ⟨sound.sender, sound.receiver.step history step, ?_, ?_, ?_⟩
  · exact fun told event mem listed => covers (sound.toldTips told mem listed)
  · intro answers told
    obtain ⟨sent, known, covered⟩ := sound.toldAnswers told
    exact ⟨sent, known, fun mem yes => covers (covered mem yes)⟩
  · refine sound.session.imp_right (And.imp_right ?_)
    rintro ⟨snapshot, taken, coherent, steps, pursues⟩
    refine ⟨snapshot, taken, coherent, steps, pursues.mono ?_⟩
    rintro event ⟨mem, covered | low⟩
    · exact ⟨mem, .inl (covers covered)⟩
    · exact ⟨mem, .inr low⟩

/-- What the receiver lists as its tips it holds. -/
theorem covers_tips (sound : d.Sound events) (history : IsHistory events) :
    d.CoversAll events {hash | hash ∈ d.receiver.tips} := fun mem listed =>
  .inl (sound.receiver.holds_of_mem history mem (sound.receiver.mem_tips.mp listed).1)

theorem covers_answers (sound : d.Sound events) (history : IsHistory events)
    (sent : List EventHash) :
    d.CoversAll events {hash | (hash, true) ∈ sent.zip (d.receiver.tipBooleans sent)} := by
  intro event mem yes
  obtain ⟨-, child, recorded⟩ := mem_zip_tipBooleans.mp yes
  exact .inl (sound.receiver.holds_of_mem history mem recorded.mem)

theorem takeTips (sound : d.Sound events) {tips : List EventHash} {session : Session ε}
    (told : d.toldTips = some tips)
    (taken : d.sender.receiveTips d.session tips = .ok () session) :
    Sound events { d with session, snapshot := some d.sender } := by
  have untouched : d.session.Untouched := sound.session.resolve_right fun busy =>
    busy.1 (receiveTips_eq_ok.mp taken).1
  obtain ⟨briefed, phase, sentTips, -⟩ := untouched.receiveTips sound.sender.toTracked taken
  refine ⟨sound.sender, sound.receiver, sound.toldTips, ?_, .inr ⟨?_, d.sender, rfl, ?_⟩⟩
  · exact fun answered => sentTips ▸ sound.toldAnswers answered
  · rw [phase]
    exact fun idle => Phase.noConfusion idle
  · exact ⟨sound.sender, .refl, .of_briefed briefed sound.sender (fun mem low => ⟨mem, .inr low⟩)
      fun mem listed => ⟨mem, .inl (sound.toldTips told mem listed)⟩⟩

theorem takeAnswers (sound : d.Sound events) {answers : List Bool} {session : Session ε}
    (told : d.toldAnswers = some answers)
    (taken : d.sender.receiveBooleans d.session answers = .ok () session) :
    Sound events { d with session } := by
  have phase := (receiveBooleans_eq_ok.mp taken).1
  obtain ⟨-, snapshot, before, coherent, steps, pursues⟩ := sound.session.resolve_left
    fun untouched => Phase.noConfusion (untouched.idle.symm.trans phase)
  obtain ⟨-, sent, known, answered, phaseAfter⟩ := receiveBooleans_answered pursues.nodup taken
  obtain ⟨asked, known', covered⟩ := sound.toldAnswers told
  obtain rfl := Option.some.inj (known.symm.trans known')
  refine ⟨sound.sender, sound.receiver, sound.toldTips, ?_, .inr ⟨?_, snapshot, before, coherent,
    steps, pursues.answered answered coherent fun mem yes => ⟨mem, .inl (covered mem yes)⟩⟩⟩
  · exact fun again => answered.sentTips ▸ sound.toldAnswers again
  · rw [phaseAfter]
    exact fun idle => Phase.noConfusion idle

theorem sendTips (sound : d.Sound events) {tips : List EventHash} {session : Session ε}
    (sent : d.sender.sendTips d.session = .ok tips session) : Sound events { d with session } := by
  obtain ⟨-, unsent, -, rfl⟩ := sendTips_eq_ok.mp sent
  refine ⟨sound.sender, sound.receiver, sound.toldTips, ?_, ?_⟩
  · intro answers told
    obtain ⟨sent, known, -⟩ := sound.toldAnswers told
    rw [unsent] at known
    contradiction
  · refine sound.session.imp ?_ (And.imp_right ?_)
    · rintro ⟨idle, sendList, queued, marks⟩
      exact ⟨idle, sendList, queued, marks⟩
    · rintro ⟨snapshot, taken, coherent, steps, pursues⟩
      exact ⟨snapshot, taken, coherent, steps, pursues.congr rfl rfl rfl rfl⟩

theorem step (sound : d.Sound events) (history : IsHistory events) (step : Step events d d') :
    d'.Sound events := by
  cases step with
  | sender step => exact sound.senderStep history step
  | receiver step => exact sound.receiverStep history step
  | sendTips sent => exact sound.sendTips sent
  | tellTips =>
    refine { sound with toldTips := ?_ }
    intro tips told
    obtain rfl := Option.some.inj told
    exact sound.covers_tips history
  | takeTips told taken => exact sound.takeTips told taken
  | tellAnswers asked =>
    refine { sound with toldAnswers := ?_ }
    intro answers told
    obtain rfl := Option.some.inj told
    exact ⟨_, asked, sound.covers_answers history _⟩
  | takeAnswers told taken => exact sound.takeAnswers told taken

end Sound

abbrev Steps (events : Set ε) : Dialogue ε → Dialogue ε → Prop :=
  Relation.ReflTransGen (Step events)

theorem steps_sender {after : Replica ε} (steps : Replica.Steps events d.sender after) :
    Steps events d { d with sender := after } := by
  induction steps with
  | refl => exact .refl
  | tail _ step ih => exact ih.tail (.sender step)

/-- A session can always be brought to its last phase, whatever the sender goes through after it
took the receiver's tips. -/
theorem exists_ready (idle : d.session.phase = .idle) (unsent : d.session.sentTips = none)
    {sender : Replica ε} (between : Replica.Steps events d.sender sender) :
    ∃ d', Steps events d d' ∧ d'.session.phase = .booleansExchanged ∧ d'.sender = sender ∧
      d'.receiver = d.receiver := by
  have early : d.session.phase.rank < Phase.booleansExchanged.rank := by
    rw [idle]
    decide
  have sent : Steps events d _ := .single (.sendTips (sendTips_eq_ok.mpr ⟨early, unsent, rfl, rfl⟩))
  have taken := (sent.tail .tellTips).tail (.takeTips rfl (receiveTips_eq_ok.mpr ⟨idle, rfl⟩))
  have moved := taken.trans (steps_sender between)
  have told := moved.tail (.tellAnswers foldl_applyTip_told.1)
  have last := told.tail (.takeAnswers rfl (receiveBooleans_eq_ok.mpr
    ⟨rfl, _, foldl_applyTip_told.1, (List.length_map _).symm, rfl⟩))
  exact ⟨_, last, rfl, rfl, rfl⟩

variable {localName peerName : String} {role : Role}

theorem Steps.sound (steps : Steps events (start localName peerName role) d)
    (history : IsHistory events) : d.Sound events := by
  induction steps with
  | refl => exact .start localName peerName role
  | tail _ step ih => exact ih.step history step

end Dialogue
end Hashgraph
