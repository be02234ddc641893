import Blockd.Engine.HeadUpdates

/-!
# Activations

`activate_stash` makes the transition peer the active one, and `replicate` then acknowledges a commit
because that peer holds it.  Does the head name the peer by then?

It does when the write is answered, and when the head that is read back carries the proposal; and
the head in the store still does if the writes that land meanwhile keep the assignment
(`activation_confirmed`).  But a publication that started from an older head puts the old assignment
back, and the last exit of `cas_assignment` adopts whatever other head of the holder it finds, and
reports success as well (`not_activation_confirmed`).
-/

set_option autoImplicit false

open Cas

namespace Blockd

namespace HeadSystem

/-- Task `i`, a call of `activate_stash` on the volume state `base`, reports success between `s` and
`s'`. -/
structure Activated (s s' : HeadSystem) (i : Nat) (base : HeadCache) (target : HostId)
    (assignmentEpoch : UInt64) (info : ReplicaCommitInfo) : Prop where
  called : ∃ proposal ∈ activationProposal base target assignmentEpoch info, ∃ phase,
    s.tasks[i]? = some ⟨.casAssignment proposal.1 proposal.2, base, phase⟩ ∧
      ∀ outcome, phase ≠ .done outcome
  answered : (s'.tasks[i]?.map TaskState.phase) = some (.done .succeeded)

/-- The head names the target as the active peer. -/
def NamesActive (head : HeadRecord) (target : HostId) (assignmentEpoch : UInt64) : Prop :=
  ∃ stash ∈ head.stash, stash.activePeer = target ∧ stash.activeAssignmentEpoch = assignmentEpoch

/-- The version of the head that the holder has adopted names the target as the active peer, and the
peer that was active as retired; and so does the head in the store, whose active peer has to hold the
commit that is acknowledged next, unless another claim has replaced the holder's. -/
structure Confirms (s : HeadSystem) (base : HeadCache) (target : HostId) (assignmentEpoch : UInt64)
    (info : ReplicaCommitInfo) : Prop where
  adopted : ∃ version stored, s.cache.headVersion = some version ∧
    (version, stored) ∈ s.object.log ∧ NamesActive stored.head target assignmentEpoch ∧
    ∃ current ∈ base.stashAssignment, current.former info ∈ stored.head.retiredStashes
  current : s.Superseded ∨ NamesActive s.object.value.head target assignmentEpoch

/-- A head that `cas_assignment` reads back has the assignments that the round started from, or those
it proposes. -/
def FindsProposal (s : HeadSystem) : HeadStep → Prop
  | .found i =>
    match s.tasks[i]? with
    | some ⟨.casAssignment assignment retired, _, .served round _ found⟩ =>
      found.head.stash = round.currentAssignment ∧
        found.head.retiredStashes = round.currentRetired ∨
      found.head.stash = some assignment ∧ retired ⊆ found.head.retiredStashes
    | _ => True
  | _ => True

/-- The assignments that calls of `cas_assignment` under way propose. -/
def proposed (s : HeadSystem) : List StashAssignment :=
  s.tasks.filterMap fun x => match x with
    | ⟨.casAssignment _ _, _, .done _⟩ => none
    | ⟨.casAssignment assignment _, _, _⟩ => some assignment
    | _ => none

/-- A write that takes effect while `cas_assignment` is under way keeps the assignment of the head, or
has the one that is proposed. -/
def KeepsAssignment (s : HeadSystem) : HeadStep → Prop
  | .land request _ => ∀ r ∈ s.object.requests[request]?,
    r.value.head.stash = s.object.value.head.stash ∨
      ∀ assignment ∈ s.proposed, r.value.head.stash = some assignment
  | _ => True

/-- The head in the store has the assignment, unless another claim has replaced the holder's. -/
def Assigned (s : HeadSystem) (assignment : StashAssignment) : Prop :=
  s.Superseded ∨ s.object.value.head.stash = some assignment

/-- Once a proposal has taken effect or has been found in the head, it is there. -/
def Settles (s : HeadSystem) (task : HeadTask) (phase : Phase) : Prop :=
  ∀ assignment retired, task = .casAssignment assignment retired → match phase with
    | .writing _ request => (s.object.created request).isSome = true → s.Assigned assignment
    | .served _ _ found => found.head.stash = some assignment → s.Assigned assignment
    | _ => True

def Settled (s : HeadSystem) : Prop := ∀ x ∈ s.tasks, s.Settles x.task x.phase

theorem getElem?_setPhase (s : HeadSystem) (i j : Nat) (phase : Phase) :
    ((s.setPhase j phase).tasks[i]?.map TaskState.phase) =
      if j = i then s.tasks[i]?.map fun _ => phase else s.tasks[i]?.map TaskState.phase := by
  rw [setPhase, List.getElem?_modify]
  split <;> simp [Function.comp_def]

variable {s s' : HeadSystem}

/-- The object changes and the rest stays. -/
theorem Settles.withObject {x : TaskState} {o : Object UInt64 StoredHead} (hx : x ∈ s.tasks)
    (h : s.Settles x.task x.phase)
    (hassigned : ∀ assignment ∈ s.proposed, s.Assigned assignment →
      Assigned { s with object := o } assignment)
    (hcreated : ∀ round request, x.phase = .writing round request →
      (o.created request).isSome = true → (s.object.created request).isSome = true ∨
        ∀ assignment retired, x.task = .casAssignment assignment retired →
          Assigned { s with object := o } assignment) :
    Settles { s with object := o } x.task x.phase := by
  obtain ⟨task, base, phase⟩ := x
  rintro assignment retired rfl
  have hsettles := h assignment retired rfl
  cases phase with
  | writing round request =>
    intro hc
    rcases hcreated round request rfl hc with hold | hnew
    · exact hassigned _ (List.mem_filterMap.mpr ⟨_, hx, rfl⟩) (hsettles hold)
    · exact hnew assignment retired rfl
  | served round version found =>
    exact fun hf => hassigned _ (List.mem_filterMap.mpr ⟨_, hx, rfl⟩) (hsettles hf)
  | reading | delayed | done => trivial

/-- What task `i` remembers changes. -/
theorem settles_setPhase (h : s.Settled) {i : Nat} {phase : Phase}
    (hp : ∀ x, s.tasks[i]? = some x → s.Settles x.task phase) :
    (s.setPhase i phase).Settled := by
  intro x hx
  obtain hx | ⟨y, hy, rfl⟩ := mem_setPhase hx
  · exact h x hx
  · exact hp y hy

end HeadSystem

namespace Tenure.Inv

variable {t : Tenure} {s : HeadSystem}

/-- A round that starts leaves the head as it is, and its write has not taken effect. -/
theorem settles_startRound (hinv : t.Inv s) (h : s.Settled)
    (task : HeadTask) :
    (s.startRound task).1.Settled ∧ (s.startRound task).1.Settles task (s.startRound task).2 := by
  obtain ⟨v, hv⟩ := hinv.version
  rcases HeadSystem.startRound_cases hv task with ⟨retired, rfl, he⟩ | he <;> rw [he]
  · exact ⟨h, by rintro _ _ ⟨⟩⟩
  · refine ⟨fun x hx => (h x hx).withObject hx (fun _ _ ha => ha) fun round request hphase hc => ?_,
      fun _ _ _ hc => ?_⟩
    · -- the request was sent before
      have hok := hinv.phases x hx
      rw [hphase] at hok
      obtain ⟨-, r, hr, -⟩ := hok
      rw [Object.created, Object.send,
        List.getElem?_append_left (List.getElem?_eq_some_iff.mp hr).1] at hc
      exact .inl hc
    · simp [Object.created, Object.send] at hc

theorem settles_resume (hinv : t.Inv s) (h : s.Settled) {i : Nat}
    {task : HeadTask} (hi : ∀ x, s.tasks[i]? = some x → x.task = task) :
    (s.resume i task).Settled := by
  obtain ⟨hold, hnew⟩ := hinv.settles_startRound h task
  refine HeadSystem.settles_setPhase hold fun x hx => ?_
  rw [hi x ((hinv.startRound task).2.2 ▸ hx)]
  exact hnew

theorem settles_spawn (hinv : t.Inv s) (h : s.Settled)
    (task : HeadTask) (base : HeadCache) : (s.spawn task base).Settled := by
  obtain ⟨hold, hnew⟩ := hinv.settles_startRound h task
  intro x hx
  rcases List.mem_append.mp hx with hx | hx
  · exact hold x hx
  · rw [List.mem_singleton.mp hx]
    exact hnew

/-- A write takes effect. -/
theorem settles_land (hinv : t.Inv s) (h : s.Settled) {n : Nat}
    {version : UInt64} {o : Object UInt64 StoredHead} (ho : s.object.land n version = some o)
    (hkeeps : s.KeepsAssignment (.land n version)) :
    HeadSystem.Settled { s with object := o } := by
  obtain ⟨r, hr, -, hlog, hrequests⟩ := Object.land_eq_some ho
  have hvalue : o.value = r.value := (Object.eq_of_log_cons hlog).2.1
  intro x hx
  refine (h x hx).withObject hx (fun assignment hproposed => ?_) fun round request hphase hc => ?_
  · rintro (⟨e, he, hother⟩ | hstash)
    · exact .inl ⟨e, (Object.Extends.land ho).log e he, hother⟩
    · right
      show o.value.head.stash = _
      rw [hvalue]
      rcases hkeeps r hr with hsame | hnew
      · rw [hsame, hstash]
      · exact hnew assignment hproposed
  · by_cases hn : n = request
    · -- it is the write that the task waits for
      subst hn
      refine .inr fun assignment retired htask => .inr ?_
      have hok := hinv.phases x hx
      rw [hphase, htask] at hok
      obtain ⟨⟨hstash, -⟩, r', hr', hsent⟩ := hok
      cases hr.symm.trans hr'
      show o.value.head.stash = _
      rw [hvalue, hsent]
      exact hstash
    · rw [Object.created, hrequests, List.getElem?_set_ne hn] at hc
      exact .inl hc

/-- **Every event** that keeps the assignment. -/
theorem settles_event (hinv : t.Inv s) (h : s.Settled) {a : HeadStep}
    {s' : HeadSystem} (hs : s.Event a s') (hkeeps : s.KeepsAssignment a) : s'.Settled := by
  cases hs with
  | snapshot => exact h
  | publish => exact hinv.settles_spawn h (.publishHead _) _
  | transition | activate | removeRetired => exact hinv.settles_spawn h _ _
  | land ho => exact hinv.settles_land h ho hkeeps
  | other _ ho =>
    have hother : HeadSystem.Superseded { s with object := _ } :=
      ⟨_, (Object.replace_eq_some ho).1 ▸ List.mem_cons_self, rfl⟩
    exact fun x hx => (h x hx).withObject hx (fun _ _ _ => .inl hother)
      fun _ _ _ _ => .inr fun _ _ _ => .inl hother
  | ok | failed | getUnavailable =>
    exact HeadSystem.settles_setPhase (by exact h) fun _ _ _ _ _ => trivial
  | serve => exact HeadSystem.settles_setPhase h fun _ _ _ _ _ hf => .inr hf
  | @found i task _ round version found ht =>
    rw [HeadSystem.found]
    split
    · exact HeadSystem.settles_setPhase (by exact h) fun _ _ _ _ _ => trivial
    · have hc := hinv.withCache (task.fence_onFound round s.cache version found.head)
        (task.headVersion_onFound round s.cache version found.head)
      dsimp only
      split
      · exact HeadSystem.settles_setPhase (by exact h) fun _ _ _ _ _ => trivial
      · exact hc.settles_resume (by exact h) (HeadSystem.task_eq ht)
      · exact HeadSystem.settles_setPhase (by exact h) fun _ _ _ _ _ => trivial
  | retry ht => exact hinv.settles_resume h (HeadSystem.task_eq ht)

end Tenure.Inv

/-- What an activation proposes. -/
theorem activationProposal_eq_some {c : HeadCache} {target : HostId} {epoch : UInt64}
    {info : ReplicaCommitInfo} {assignment : StashAssignment} {retired : List RetiredStash}
    (h : activationProposal c target epoch info = some (assignment, retired)) :
    assignment.activePeer = target ∧ assignment.activeAssignmentEpoch = epoch ∧
      ∃ current ∈ c.stashAssignment, current.former info ∈ retired := by
  obtain ⟨current, hcurrent, h⟩ := Option.bind_eq_some_iff.mp h
  obtain ⟨-, h⟩ := Option.ite_none_left_eq_some.mp h
  cases h
  refine ⟨rfl, rfl, current, hcurrent, ?_⟩
  split
  · assumption
  · exact List.mem_append_right _ (List.mem_singleton_self _)

variable {s s' : HeadSystem} {a : HeadStep} {i : Nat} {target : HostId} {epoch : UInt64}
  {info : ReplicaCommitInfo} {base : HeadCache}

/-! ## A task that succeeds -/

section Pending

variable {x : TaskState} (htask : s.tasks[i]? = some x) (hphase : x.phase ≠ .done .succeeded)
include htask hphase

theorem HeadSystem.not_done {tasks : List TaskState} (heq : tasks[i]? = s.tasks[i]?) :
    tasks[i]?.map TaskState.phase ≠ some (.done .succeeded) := by
  rw [heq, htask]
  exact fun h => hphase (Option.some.inj h)

theorem HeadSystem.done_setPhase {j : Nat} {phase : Phase} {u : HeadSystem}
    (htasks : u.tasks = s.tasks)
    (h : (u.setPhase j phase).tasks[i]?.map TaskState.phase = some (.done .succeeded)) :
    j = i ∧ phase = .done .succeeded := by
  rw [getElem?_setPhase, htasks, htask] at h
  split at h
  · exact ⟨‹_›, Option.some.inj h⟩
  · exact absurd (Option.some.inj h) hphase

/-- A further round of an assignment is a write. -/
theorem HeadSystem.not_done_resume {assignment : StashAssignment} {retired : List RetiredStash}
    (hx : x.task = .casAssignment assignment retired) {j : Nat} {y : TaskState} {u : HeadSystem}
    {v : UInt64} (hv : u.cache.headVersion = some v) (htasks : u.tasks = s.tasks)
    (hy : s.tasks[j]? = some y) :
    (u.resume j y.task).tasks[i]?.map TaskState.phase ≠ some (.done .succeeded) := by
  intro h
  have hround := startRound_cases hv y.task
  obtain ⟨rfl, hdone⟩ := done_setPhase htask hphase (u := (u.startRound y.task).1)
    (by rcases hround with ⟨-, -, he⟩ | he <;> rw [he] <;> exact htasks) h
  cases htask.symm.trans hy
  rw [hx] at hdone
  simp only [sendRound, hv] at hdone
  cases hdone

end Pending

/-- **An activation is confirmed by the head**, if the head that it reads back has the assignments
the round started from or those it proposes, and the writes that take effect keep the assignment. -/
theorem activation_confirmed (t : Tenure) {as : List HeadStep}
    (hkeeps : Run.Along HeadSystem.step HeadSystem.KeepsAssignment t.start as)
    (hrun : Run.run HeadSystem.step t.start as = some s) (hstep : s.step a = some s')
    (hactivated : s.Activated s' i base target epoch info) (hfinds : s.FindsProposal a) :
    s'.Confirms base target epoch info := by
  have hall : ∀ s a s', t.Inv s ∧ s.Settled → s.KeepsAssignment a → s.step a = some s' →
      t.Inv s' ∧ s'.Settled := fun s a s' h hkeeps hs =>
    have hevent := HeadSystem.event_of_step hs
    ⟨h.1.event hevent, h.1.settles_event h.2 hevent hkeeps⟩
  obtain ⟨hinv, hsettles⟩ :=
    Run.run_invariant hall ⟨t.inv_start, by rintro _ ⟨⟩⟩ hkeeps hrun
  obtain ⟨⟨⟨assignment, retired⟩, hp, phase, htask, hphase⟩, hdone⟩ := hactivated
  obtain ⟨hpeer, hepoch, current, hcurrent, hformer⟩ := activationProposal_eq_some hp
  have hconfirms : ∀ {u : HeadSystem} {version : UInt64} {stored : StoredHead},
      u.cache.headVersion = some version → (version, stored) ∈ u.object.log →
      stored.head.stash = some assignment → retired ⊆ stored.head.retiredStashes →
      u.Assigned assignment → u.Confirms base target epoch info :=
    fun hv hlog hstash hretired hassigned =>
      ⟨⟨_, _, hv, hlog, ⟨assignment, hstash, hpeer, hepoch⟩, current, hcurrent, hretired hformer⟩,
        hassigned.imp id fun hstash => ⟨assignment, hstash, hpeer, hepoch⟩⟩
  have hok := hinv.phases _ (List.mem_of_getElem? htask)
  have hassigned := hsettles _ (List.mem_of_getElem? htask) assignment retired rfl
  have hpending := hphase .succeeded
  have hspawn : ∀ (task : HeadTask) (base : HeadCache),
      (s.spawn task base).tasks[i]? = s.tasks[i]? := by
    intro task base
    have hlt := (List.getElem?_eq_some_iff.mp htask).1
    have htasks := (hinv.startRound task).2.2
    rw [HeadSystem.spawn, List.getElem?_append_left (htasks ▸ hlt), htasks]
  obtain ⟨v, hv⟩ := hinv.version
  cases HeadSystem.event_of_step hstep with
  | snapshot | land | other => exact absurd hdone (HeadSystem.not_done htask hpending rfl)
  | publish => exact absurd hdone (HeadSystem.not_done htask hpending (hspawn (.publishHead _) _))
  | transition | activate | removeRetired =>
    exact absurd hdone (HeadSystem.not_done htask hpending (hspawn _ _))
  | ok ht hv =>
    obtain ⟨rfl, -⟩ := HeadSystem.done_setPhase htask hpending rfl hdone
    cases htask.symm.trans ht
    obtain ⟨⟨hstash, hretired⟩, hsent⟩ := hok
    exact hconfirms rfl (hsent.mem_log hv) hstash (fun e he => hretired.symm ▸ he)
      (hassigned (Option.isSome_iff_exists.mpr ⟨_, hv⟩))
  | failed | serve | getUnavailable => cases (HeadSystem.done_setPhase htask hpending rfl hdone).2
  | @found j task _ round version found ht =>
    rw [HeadSystem.found] at hdone ⊢
    split at hdone
    case isTrue => cases (HeadSystem.done_setPhase htask hpending rfl hdone).2
    case isFalse hown =>
      rw [if_neg hown]
      dsimp only at hdone ⊢
      generalize hresult : task.onFound round s.cache version found.head = result at hdone ⊢
      obtain ⟨cache, next⟩ := result
      have hversion : cache.headVersion = some version := by
        rw [← task.headVersion_onFound round s.cache version found.head, hresult]
      cases next with
      | delay => cases (HeadSystem.done_setPhase htask hpending rfl hdone).2
      | again =>
        exact absurd hdone
          (HeadSystem.not_done_resume htask hpending rfl (u := { s with cache }) hversion rfl ht)
      | finish outcome =>
        obtain ⟨rfl, -⟩ := HeadSystem.done_setPhase htask hpending rfl hdone
        cases htask.symm.trans ht
        obtain ⟨⟨hbuilt, hkept⟩, hlog⟩ := hok
        simp only [HeadSystem.FindsProposal, htask] at hfinds
        rcases hfinds with hround | ⟨hstash, hretired⟩
        · -- the round goes on, unless its own head was found
          by_cases hfound : found.head = round.head
          · rw [← hfound] at hbuilt hkept
            exact hconfirms hversion hlog hbuilt (fun e he => hkept.symm ▸ he) (hassigned hbuilt)
          · rw [HeadTask.onFound, if_neg hfound, if_pos hround] at hresult
            cases hresult
        · exact hconfirms hversion hlog hstash hretired (hassigned hstash)
  | retry ht => exact absurd hdone (HeadSystem.not_done_resume htask hpending rfl hv rfl ht)

/-- A volume that was restored while it replaces its passive 2 by peer 3, with peer 4 retired. -/
def replacingVolume : Tenure where
  volume := 7
  host := 1
  claim := .restored firstManifest (some ⟨3, 2, 2, some 3, 0⟩) [⟨4, 1, ⟨1, 1, 1⟩⟩]
  fence := 1
  version := 2
  version_eq := nofun
  coherent := ⟨by decide, by decide, by decide⟩

/-- A publication lands while the activation is under way.  The activation reads that head back,
waits, and is answered in its second round. -/
theorem activation_confirmed_published : ∃ s, Run.run HeadSystem.step replacingVolume.start
    [.snapshot, .publish { firstManifest with captureSeq := 6 }, .activate 3 3 ⟨1, 2, 2⟩, .land 0 3,
      .conflict 1, .serve 1, .found 1, .retry 1, .land 2 4, .ok 1] = some s ∧
      s.Confirms replacingVolume.start.cache 3 3 ⟨1, 2, 2⟩ := by
  have hkeeps : Run.Along HeadSystem.step HeadSystem.KeepsAssignment replacingVolume.start
      [.snapshot, .publish { firstManifest with captureSeq := 6 }, .activate 3 3 ⟨1, 2, 2⟩,
        .land 0 3, .conflict 1, .serve 1, .found 1, .retry 1, .land 2 4] := by
    refine .cons trivial rfl (.cons trivial rfl (.cons trivial rfl (.cons ?_ rfl
      (.cons trivial rfl (.cons trivial rfl (.cons trivial rfl (.cons trivial rfl
        (.cons ?_ rfl trivial))))))))
    · rintro _ ⟨⟩
      exact .inl rfl
    · rintro _ ⟨⟩
      exact .inr (by decide)
  exact ⟨_, rfl, activation_confirmed replacingVolume (i := 1) (a := .ok 1) hkeeps rfl rfl
    ⟨⟨_, rfl, _, rfl, nofun⟩, rfl⟩ trivial⟩

/-- **A success that the head does not confirm.**  Peer 4 is taken out of the head while the
activation is under way.  The activation reads this head back, adopts it and reports success, and the
head still names peer 2. -/
theorem not_activation_confirmed : ¬ ∀ (t : Tenure) (as : List HeadStep) (s s' : HeadSystem)
    (a : HeadStep) (i : Nat) (base : HeadCache) (target : HostId) (epoch : UInt64)
    (info : ReplicaCommitInfo), Run.run HeadSystem.step t.start as = some s →
      s.step a = some s' → s.Activated s' i base target epoch info →
      s'.Confirms base target epoch info := by
  intro h
  obtain ⟨⟨version, stored, hversion, hlog, ⟨stash, hstash, hpeer, -⟩, -⟩, -⟩ :=
    h replacingVolume [.activate 3 3 ⟨1, 2, 2⟩, .removeRetired ⟨4, 1, ⟨1, 1, 1⟩⟩, .land 1 3,
      .conflict 0, .serve 0] _ _ (.found 0) 0 replacingVolume.start.cache 3 3 ⟨1, 2, 2⟩ rfl rfl
      ⟨⟨_, rfl, _, rfl, nofun⟩, rfl⟩
  cases hversion
  obtain rfl := Object.value_unique _ hlog (Object.current_mem_log _)
  cases hstash
  exact absurd hpeer (by decide)

end Blockd
