import PredicateTransfer.Partitioned

/-!
# A collect-left join and its channel

In `CollectLeft` mode all partitions share one build stream: the first `execute` creates it
through `OnceAsync::try_once`, and every partition stream that is polled drives it on. Each
`execute j` subscribes its own probe stream, and nothing makes these calls come early: a parent
may poll the streams it has before it asks for the next one.

A probe stream that subscribes after the filter was sent never sees it. The plan nodes hold the
channel's sender, so `recv` does not fail either, and the stream hangs (`Stuck.forever`).

**Theorem (`no_stuck_probe`).** In a run in which every `execute` comes before the filter is
sent, no probe stream is ever stuck.
-/

namespace PredicateTransfer

open Runs

variable {S : Sig} {B : BloomCrate} {T : Broadcast (BloomPayload B)} {n : Nat}

namespace CollectLeftJoin

/-! ## The join's steps -/

structure State (S : Sig) (T : Broadcast (BloomPayload B)) (n : Nat) where
  channel : T.Channel
  /-- The build stream, once `left_fut` holds it. -/
  leftFut : Option (BuildStream S)
  probes : Fin n → Option (ProbeStream T)

inductive Action (n : Nat) where
  | execute (j : Fin n)
  | poll (j : Fin n)
  deriving DecidableEq, Repr

def init (S : Sig) (T : Broadcast (BloomPayload B)) (n : Nat) : State S T n :=
  ⟨T.new 1, none, fun _ => none⟩

def State.setProbe (st : State S T n) (j : Fin n) (probe : ProbeStream T) : State S T n :=
  { st with probes := Function.update st.probes j (some probe) }

/-- `self.left_fut.try_once(..)`: the first call creates the build stream. -/
def State.tryOnce (E : BuildSide S B Unit) (st : State S T n) : State S T n :=
  { st with leftFut := some (st.leftFut.getD (.collecting (E.input ()) [] [])) }

/-- Resume the shared build stream. -/
def State.pollBuild (E : BuildSide S B Unit) (st : State S T n) (build : BuildStream S) :
    State S T n :=
  let (build, sent, _) := build.step B E.keyColumn (E.seed ()) (E.elapsed ())
  { st with channel := sent.elim st.channel (T.send st.channel), leftFut := some build }

/-- A poll of a partition stream resumes the build stream until that has ended, and its own
probe stream from then on. -/
def step (E : BuildSide S B Unit) (st : State S T n) : Action n → Option (State S T n)
  | .execute j =>
    match st.probes j with
    | some _ => none
    | none => some ((st.tryOnce E).setProbe j (.idle (T.subscribe st.channel)))
  | .poll j => do
    let probe ← st.probes j
    let build ← st.leftFut
    match build with
    | .ended => return st.setProbe j (probe.poll st.channel)
    | build => return st.pollBuild E build

/-- **What a step can do.** -/
theorem step_cases {E : BuildSide S B Unit} {st st' : State S T n} {a : Action n}
    (h : step E st a = some st') :
    (∃ j, a = .execute j ∧ st.probes j = none ∧
      st' = (st.tryOnce E).setProbe j (.idle (T.subscribe st.channel))) ∨
    (∃ j probe, a = .poll j ∧ st.probes j = some probe ∧ st.leftFut = some .ended ∧
      st' = st.setProbe j (probe.poll st.channel)) ∨
    (∃ j build, a = .poll j ∧ st.leftFut = some build ∧ build ≠ .ended ∧
      st' = st.pollBuild E build) := by
  cases a with
  | execute j =>
    simp only [step] at h
    split at h
    · cases h
    · rename_i hp
      exact .inl ⟨j, rfl, hp, (Option.some.inj h).symm⟩
  | poll j =>
    obtain ⟨probe, hp, h⟩ := Option.bind_eq_some_iff.1 h
    obtain ⟨build, hb, h⟩ := Option.bind_eq_some_iff.1 h
    by_cases hend : build = .ended
    · subst hend
      exact .inr (.inl ⟨j, probe, rfl, hp, hb, (Option.some.inj h).symm⟩)
    · refine .inr (.inr ⟨j, build, rfl, hb, hend, ?_⟩)
      cases build with
      | ended => exact absurd rfl hend
      | _ => exact (Option.some.inj h).symm

/-! ## Stuck probe streams -/

/-- The build stream has ended and sent its filter, and probe stream `j` is suspended in `recv`
with no message to come. -/
def Stuck (st : State S T n) (j : Fin n) : Prop :=
  st.leftFut = some .ended ∧ T.log st.channel ≠ [] ∧
    ∃ r, st.probes j = some (.waiting r) ∧ T.unread st.channel r = 0

theorem setProbe_probes_of_ne {st : State S T n} {j k : Fin n} (h : j ≠ k)
    (probe : ProbeStream T) : (st.setProbe k probe).probes j = st.probes j := by
  simp [State.setProbe, h]

theorem setProbe_probes_self (st : State S T n) (j : Fin n) (probe : ProbeStream T) :
    (st.setProbe j probe).probes j = some probe := by
  simp [State.setProbe]

/-- **A stuck probe stream stays stuck**, whatever is executed and polled. -/
theorem Stuck.forever {E : BuildSide S B Unit} {st st' : State S T n} {j : Fin n}
    (h : Stuck st j) (hrun : Reaches (step E) (fun _ _ => True) st st') : Stuck st' j := by
  refine hrun.invariant (I := fun t => Stuck t j) h ?_
  intro t a u ht _ ha
  obtain ⟨hend, hlog, r, hr, hun⟩ := ht
  rcases step_cases ha with ⟨k, -, hk, rfl⟩ | ⟨k, probe, -, hk, -, rfl⟩ | ⟨k, build, -, hb, hne, -⟩
  · have hjk : j ≠ k := by
      rintro rfl
      rw [hr] at hk
      cases hk
    refine ⟨?_, hlog, r, ?_, hun⟩
    · show some (t.leftFut.getD _) = some .ended
      rw [hend, Option.getD_some]
    · rw [setProbe_probes_of_ne hjk]
      exact hr
  · refine ⟨hend, hlog, r, ?_, hun⟩
    by_cases hjk : j = k
    · subst hjk
      rw [hr] at hk
      cases hk
      rw [setProbe_probes_self, ProbeStream.poll, ProbeStream.receive_eq_waiting_iff.2 ⟨hun, rfl⟩]
    · rw [setProbe_probes_of_ne hjk]
      exact hr
  · rw [hend] at hb
    exact absurd (Option.some.inj hb).symm hne

/-! ## Executing in time -/

/-- An `execute` comes before the filter is sent. -/
def SubscribesInTime (st : State S T n) : Action n → Prop
  | .execute _ => (T.log st.channel).isEmpty = true
  | .poll _ => True

instance (st : State S T n) (a : Action n) : Decidable (SubscribesInTime st a) :=
  match a with
  | .execute _ => inferInstanceAs (Decidable (_ = true))
  | .poll _ => inferInstanceAs (Decidable True)

/-- How many messages the build stream has sent. -/
def sentBy : Option (BuildStream S) → Nat
  | some (.yielding _) | some .ended => 1
  | _ => 0

structure Inv (st : State S T n) : Prop where
  log : (T.log st.channel).length = sentBy st.leftFut
  /-- Whoever has not left `recv` has subscribed to an empty channel. -/
  idle : ∀ j r, st.probes j = some (.idle r) → T.next r = 0
  waiting : ∀ j r, st.probes j = some (.waiting r) → T.next r = 0

section
variable {E : BuildSide S B Unit} {st st' : State S T n}

theorem inv_init : Inv (init S T n) where
  log := congrArg List.length (T.log_new 1)
  idle _ _ h := by cases h
  waiting _ _ h := by cases h

theorem Inv.setProbe (h : Inv st) {j : Fin n} {probe : ProbeStream T}
    (hidle : ∀ r, probe = .idle r → T.next r = 0)
    (hwaiting : ∀ r, probe = .waiting r → T.next r = 0) : Inv (st.setProbe j probe) := by
  refine ⟨h.log, fun k r hk => ?_, fun k r hk => ?_⟩
  · by_cases hkj : k = j
    · subst hkj
      rw [setProbe_probes_self] at hk
      exact hidle r (Option.some.inj hk)
    · rw [setProbe_probes_of_ne hkj] at hk
      exact h.idle k r hk
  · by_cases hkj : k = j
    · subst hkj
      rw [setProbe_probes_self] at hk
      exact hwaiting r (Option.some.inj hk)
    · rw [setProbe_probes_of_ne hkj] at hk
      exact h.waiting k r hk

/-- The build stream sends exactly once, when it stops collecting. -/
theorem Inv.pollBuild (h : Inv st) {build : BuildStream S} (hb : st.leftFut = some build) :
    Inv (st.pollBuild E build) := by
  refine ⟨?_, h.idle, h.waiting⟩
  have hlog := h.log
  rw [hb] at hlog
  cases build with
  | collecting input vs bs =>
    cases input with
    | nil => simpa [State.pollBuild, BuildStream.step, sentBy] using hlog
    | cons item input => cases item <;> exact hlog
  | yielding bs => cases bs <;> exact hlog
  | ended => exact hlog
  | failed e => exact hlog

theorem Inv.tryOnce (h : Inv st) : Inv (st.tryOnce E) := by
  refine ⟨?_, h.idle, h.waiting⟩
  show (T.log st.channel).length = sentBy (some (st.leftFut.getD _))
  rw [h.log]
  cases st.leftFut <;> rfl

/-- **One step.** -/
theorem inv_step {a : Action n} (h : Inv st) (hok : SubscribesInTime st a)
    (ha : step E st a = some st') : Inv st' := by
  rcases step_cases ha with ⟨j, rfl, -, rfl⟩ | ⟨j, probe, -, hp, -, rfl⟩ | ⟨j, build, -, hb, -, rfl⟩
  · refine h.tryOnce.setProbe (fun r hr => ?_) fun r hr => by cases hr
    have hempty : T.log st.channel = [] := List.isEmpty_iff.1 hok
    cases hr
    rw [T.next_subscribe, hempty]
    rfl
  · -- A poll that leaves the stream suspended leaves its receiver where it was.
    have hreceive : ∀ {r r'}, T.next r = 0 →
        ProbeStream.receive st.channel r = .waiting r' → T.next r' = 0 := by
      intro r r' hr hrecv
      rw [(ProbeStream.receive_eq_waiting_iff.1 hrecv).2]
      exact hr
    cases probe with
    | idle r =>
      exact h.setProbe (fun r' hr' => absurd hr' ProbeStream.receive_ne_idle)
        fun r' hr' => hreceive (h.idle j r hp) hr'
    | waiting r =>
      exact h.setProbe (fun r' hr' => absurd hr' ProbeStream.receive_ne_idle)
        fun r' hr' => hreceive (h.waiting j r hp) hr'
    | filtering payload => exact h.setProbe (fun r hr => by cases hr) fun r hr => by cases hr
    | passThrough => exact h.setProbe (fun r hr => by cases hr) fun r hr => by cases hr
  · exact h.pollBuild hb

/-- **No probe stream gets stuck if all of them subscribe in time.** -/
theorem no_stuck_probe (h : Reaches (step E) SubscribesInTime (init S T n) st) (j : Fin n) :
    ¬ Stuck st j := by
  rintro ⟨hend, -, r, hr, hun⟩
  have hinv : Inv st := h.invariant inv_init inv_step
  have hlog := hinv.log
  rw [hend] at hlog
  have hlen : (T.log st.channel).length = 1 := hlog
  rw [Broadcast.unread, hlen, hinv.waiting j r hr] at hun
  cases hun

end

/-- One build batch with the key 1. -/
def oneBatch : BuildSide scanSig exactBloom Unit where
  keyColumn := 0
  input _ := [.ok [[.int64 1]]]
  seed _ := ()
  elapsed _ := 0

/-- Both partitions are executed first: the second one receives the filter too. -/
theorem oneBatch_not_stuck :
    ∃ st, Reaches (step oneBatch) SubscribesInTime (init scanSig (.ofLog _) 2) st ∧
      st.leftFut = some .ended ∧
      st.probes 1 = some (.filtering (.ofValues exactBloom () 0 ["1"])) ∧ ¬ Stuck st 1 := by
  have hrun : run (step oneBatch) SubscribesInTime (init scanSig (.ofLog _) 2)
      [.execute 0, .execute 1, .poll 0, .poll 0, .poll 1, .poll 0, .poll 1] = some _ := rfl
  exact ⟨_, reaches_of_run hrun, rfl, rfl, no_stuck_probe (reaches_of_run hrun) 1⟩

/-- The second partition is executed after the first has driven the build stream to its end: its
probe stream waits for a filter that was sent before it subscribed, in every later state. -/
theorem oneBatch_stuck :
    ∃ st, Reaches (step oneBatch) (fun _ _ => True) (init scanSig (.ofLog _) 2) st ∧
      Stuck st 1 ∧
      ∀ st', Reaches (step oneBatch) (fun _ _ => True) st st' → Stuck st' 1 := by
  have hrun : run (step oneBatch) (fun _ _ => True) (init scanSig (.ofLog _) 2)
      [.execute 0, .poll 0, .poll 0, .poll 0, .poll 0, .execute 1, .poll 1] = some _ := rfl
  have hforever : ∀ st : State scanSig (.ofLog _) 2, Stuck st 1 → Stuck st 1 ∧
      ∀ st', Reaches (step oneBatch) (fun _ _ => True) st st' → Stuck st' 1 :=
    fun st hst => ⟨hst, fun st' h => hst.forever h⟩
  exact ⟨_, reaches_of_run hrun, hforever _ ⟨rfl, List.cons_ne_nil _ _, _, rfl, rfl⟩⟩

end CollectLeftJoin

end PredicateTransfer
