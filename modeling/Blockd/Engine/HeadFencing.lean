import Blockd.Engine.HeadTasks

/-!
# Fencing

A head task that reads the head again and finds another holder or another fence stops the volume.
`stopped_superseded` says that this happens only after another claim has replaced the head, over
every interleaving of events in which no task reads back the holder's own claim while that still
carries the provisional fence zero.  It is that reading which `not_stopped_superseded` uses: a
new volume whose first publication fails is stopped although nobody else has touched its head.

`HeadSystem.Event` says once what an event can do, and `Tenure.Inv` is what every event preserves.
-/

set_option autoImplicit false

namespace Blockd

open Cas (Object)

/-! ## What every run keeps -/

/-- The part of a head that the task itself decides. -/
def HeadTask.Builds : HeadTask → HeadRecord → Prop
  | publishHead pointer, h => h.manifest = some pointer
  | casAssignment assignment retired, h => h.stash = some assignment ∧ h.retiredStashes = retired
  | removeRetiredStash _, _ => True

theorem HeadTask.builds_head (task : HeadTask) (volume : VolumeId) (host : HostId)
    (c : HeadCache) : task.Builds (task.head volume host c) := by
  cases task with
  | publishHead pointer => rfl
  | casAssignment assignment retired => exact ⟨rfl, rfl⟩
  | removeRetiredStash retired => trivial

namespace HeadTask

variable (task : HeadTask) (volume : VolumeId) (host : HostId) (round : Round) (c : HeadCache)
  (v : UInt64) (found : HeadRecord)

@[simp] theorem holder_head : (task.head volume host c).holder = host := by
  cases task <;> rfl

@[simp] theorem fence_head : (task.head volume host c).fence = c.fence := by
  cases task <;> rfl

@[simp] theorem fence_onOk : (task.onOk round c v).fence = c.fence := by
  cases task <;> rfl

@[simp] theorem headVersion_onOk : (task.onOk round c v).headVersion = some v := by
  cases task <;> rfl

@[simp] theorem fence_onFound : (task.onFound round c v found).1.fence = c.fence := by
  fun_cases HeadTask.onFound <;> rfl

@[simp] theorem headVersion_onFound :
    (task.onFound round c v found).1.headVersion = some v := by
  fun_cases HeadTask.onFound <;> rfl

end HeadTask

variable {s : HeadSystem} {a : HeadStep}

/-- A round either sends a head, or it is a removal's and finds that there is nothing left to do. -/
theorem HeadSystem.startRound_cases {v : UInt64} (hv : s.cache.headVersion = some v)
    (task : HeadTask) :
    (∃ retired, task = .removeRetiredStash retired ∧ s.startRound task = (s, .done .succeeded)) ∨
    s.startRound task =
      ({ s with object := s.object.send v ⟨task.head s.volume s.host s.cache, .task task⟩ },
        .writing ⟨task.head s.volume s.host s.cache, s.cache.stashAssignment,
          s.cache.retiredStashes⟩ s.object.requests.length) := by
  cases task with
  | publishHead pointer => right; simp only [startRound, sendRound, hv]
  | casAssignment assignment retired => right; simp only [startRound, sendRound, hv]
  | removeRetiredStash retired =>
    rw [startRound]
    split
    · right; simp only [sendRound, hv]
    · left; exact ⟨retired, rfl, rfl⟩

/-- What an event can do: `act` as a relation. -/
inductive HeadSystem.Event (s : HeadSystem) : HeadStep → HeadSystem → Prop
  | snapshot : s.Event .snapshot { s with snapshot := some s.cache.backed }
  | publish {pointer : ManifestPtr} {base : Option ManifestPtr} (hbase : s.snapshot = some base)
      (hnew : pointer.newerThan base) :
      s.Event (.publish pointer)
        { s.spawn (.publishHead pointer) { s.cache with backed := base } with snapshot := none }
  | transition {candidates : List HostId} {assignment : StashAssignment}
      (hp : transitionProposal s.cache candidates = some assignment) :
      s.Event (.transition candidates)
        (s.spawn (.casAssignment assignment s.cache.retiredStashes) s.cache)
  | activate {target : HostId} {epoch : UInt64} {info : ReplicaCommitInfo}
      {assignment : StashAssignment} {retired : List RetiredStash}
      (hp : activationProposal s.cache target epoch info = some (assignment, retired)) :
      s.Event (.activate target epoch info) (s.spawn (.casAssignment assignment retired) s.cache)
  | removeRetired {retired : RetiredStash} :
      s.Event (.removeRetired retired) (s.spawn (.removeRetiredStash retired) s.cache)
  | land {request : Nat} {version : UInt64} {object : Object UInt64 StoredHead}
      (ho : s.object.land request version = some object) :
      s.Event (.land request version) { s with object }
  | other {version : UInt64} {head : HeadRecord} {object : Object UInt64 StoredHead}
      (hother : head.holder ≠ s.host ∨ head.fence ≠ s.cache.fence)
      (ho : s.object.replace version ⟨head, .other⟩ = some object) :
      s.Event (.other version head) { s with object }
  | ok {i : Nat} {task : HeadTask} {base : HeadCache} {round : Round} {request : Nat}
      {version : UInt64} (ht : s.tasks[i]? = some ⟨task, base, .writing round request⟩)
      (hv : s.object.created request = some version) :
      s.Event (.ok i)
        ({ s with cache := task.onOk round s.cache version }.setPhase i (.done .succeeded))
  | failed {a : HeadStep} {i : Nat} {task : HeadTask} {base : HeadCache} {round : Round}
      {request : Nat} (ha : a = .conflict i ∨ a = .unknown i)
      (ht : s.tasks[i]? = some ⟨task, base, .writing round request⟩) :
      s.Event a (s.setPhase i (.reading round))
  | serve {i : Nat} {task : HeadTask} {base : HeadCache} {round : Round}
      (ht : s.tasks[i]? = some ⟨task, base, .reading round⟩) :
      s.Event (.serve i) (s.setPhase i (.served round s.object.version s.object.value))
  | getUnavailable {i : Nat} : s.Event (.getUnavailable i) (s.setPhase i .delayed)
  | found {i : Nat} {task : HeadTask} {base : HeadCache} {round : Round} {version : UInt64}
      {found : StoredHead} (ht : s.tasks[i]? = some ⟨task, base, .served round version found⟩) :
      s.Event (.found i) (s.found i task round version found.head)
  | retry {i : Nat} {task : HeadTask} {base : HeadCache}
      (ht : s.tasks[i]? = some ⟨task, base, .delayed⟩) :
      s.Event (.retry i) (s.resume i task)

variable {s' : HeadSystem}

theorem HeadSystem.event_of_act (h : s.act a = some s') : s.Event a s' := by
  cases a with
  | snapshot =>
    rw [act, Option.ite_none_left_eq_some] at h
    exact Option.some.inj h.2 ▸ .snapshot
  | publish pointer =>
    rw [act, Option.bind_eq_some_iff] at h
    obtain ⟨base, hbase, h⟩ := h
    rw [Option.ite_none_right_eq_some] at h
    exact Option.some.inj h.2 ▸ .publish hbase h.1
  | transition candidates =>
    rw [act, Option.map_eq_some_iff] at h
    obtain ⟨assignment, hp, rfl⟩ := h
    exact .transition hp
  | activate target epoch info =>
    rw [act, Option.map_eq_some_iff] at h
    obtain ⟨⟨assignment, retired⟩, hp, rfl⟩ := h
    exact .activate hp
  | removeRetired retired =>
    rw [act, Option.ite_none_right_eq_some] at h
    exact Option.some.inj h.2 ▸ .removeRetired
  | land request version =>
    rw [act, Option.map_eq_some_iff] at h
    obtain ⟨object, ho, rfl⟩ := h
    exact .land ho
  | other version head =>
    rw [act, Option.ite_none_right_eq_some, Option.map_eq_some_iff] at h
    obtain ⟨hother, object, ho, rfl⟩ := h
    exact .other hother ho
  | ok i =>
    simp only [act] at h
    split at h
    · rename_i ht
      obtain ⟨version, hv, rfl⟩ := Option.map_eq_some_iff.mp h
      exact .ok ht hv
    · cases h
  | conflict i =>
    simp only [act] at h
    split at h
    · rename_i ht
      rw [Option.ite_none_right_eq_some] at h
      exact Option.some.inj h.2 ▸ .failed (.inl rfl) ht
    · cases h
  | unknown i =>
    simp only [act] at h
    split at h
    · rename_i ht
      exact Option.some.inj h ▸ .failed (.inr rfl) ht
    · cases h
  | serve i =>
    simp only [act] at h
    split at h
    · rename_i ht
      exact Option.some.inj h ▸ .serve ht
    · cases h
  | getUnavailable i =>
    simp only [act] at h
    split at h
    · exact Option.some.inj h ▸ .getUnavailable
    · cases h
  | found i =>
    simp only [act] at h
    split at h
    · rename_i ht
      exact Option.some.inj h ▸ .found ht
    · cases h
  | retry i =>
    simp only [act] at h
    split at h
    · rename_i ht
      exact Option.some.inj h ▸ .retry ht
    · cases h

/-- What a task remembers is true of the object. -/
def Phase.Ok (o : Object UInt64 StoredHead) (task : HeadTask) : Phase → Prop
  | writing round request =>
    task.Builds round.head ∧ o.Sent request ⟨round.head, .task task⟩
  | reading round => task.Builds round.head
  | served round version found => task.Builds round.head ∧ (version, found) ∈ o.log
  | delayed | done _ => True

theorem Phase.Ok.mono {o o' : Object UInt64 StoredHead} (h : o.Extends o') {task : HeadTask} :
    ∀ {phase : Phase}, phase.Ok o task → phase.Ok o' task
  | writing _ _, ⟨hb, hs⟩ => ⟨hb, h.sent _ _ hs⟩
  | reading _, hb => hb
  | served _ _ _, ⟨hb, hm⟩ => ⟨hb, h.log _ hm⟩
  | delayed, _ | done _, _ => trivial

namespace Tenure

/-- The fence test tells this tenure's heads from others, once the claim carries its fence. -/
structure Owned (t : Tenure) (st : StoredHead) : Prop where
  claim : st.writer = .claim → st.head = t.head
  task : ∀ task, st.writer = .task task → st.head.holder = t.host ∧ st.head.fence = t.fence
  other : st.writer = .other → st.head.holder ≠ t.host ∨ st.head.fence ≠ t.fence

structure Inv (t : Tenure) (s : HeadSystem) : Prop where
  host : s.host = t.host
  fence : s.cache.fence = t.fence
  version : ∃ v, s.cache.headVersion = some v
  owned : s.object.All t.Owned
  requests : ∀ r ∈ s.object.requests, ∃ task, r.value.writer = .task task
  claimed : ∀ e ∈ s.object.log, e.2.writer = .claim → e.1 = t.version
  phases : ∀ x ∈ s.tasks, x.phase.Ok s.object x.task

theorem inv_start (t : Tenure) : t.Inv t.start where
  host := rfl
  fence := rfl
  version := ⟨_, rfl⟩
  owned := Object.All.create _ ⟨fun _ => rfl, by rintro task ⟨⟩, by rintro ⟨⟩⟩
  requests := by
    intro r hr
    cases hr
  claimed := by
    intro e he _
    rw [List.mem_singleton.mp he]
    rfl
  phases := by
    intro x hx
    cases hx

namespace Inv

variable {t : Tenure} {s : HeadSystem}

/-- A change of the cached head that keeps the fence and names a version. -/
theorem withCache (h : t.Inv s) {c : HeadCache} (hf : c.fence = s.cache.fence) {v : UInt64}
    (hv : c.headVersion = some v) : t.Inv { s with cache := c } :=
  ⟨h.host, hf.trans h.fence, ⟨v, hv⟩, h.owned, h.requests, h.claimed, h.phases⟩

variable {o : Object UInt64 StoredHead} {i : Nat}

/-- A change of the object that keeps what was in it. -/
theorem withObject (h : t.Inv s) (hext : s.object.Extends o) (howned : o.All t.Owned)
    (hreq : ∀ r ∈ o.requests, ∃ task, r.value.writer = .task task)
    (hclaim : ∀ e ∈ o.log, e.2.writer = .claim → e.1 = t.version) : t.Inv { s with object := o } :=
  ⟨h.host, h.fence, h.version, howned, hreq, hclaim, fun x hx => (h.phases x hx).mono hext⟩

theorem setPhase (h : t.Inv s) {phase : Phase}
    (hp : ∀ x, s.tasks[i]? = some x → phase.Ok s.object x.task) : t.Inv (s.setPhase i phase) := by
  refine ⟨h.host, h.fence, h.version, h.owned, h.requests, h.claimed, fun x hx => ?_⟩
  obtain hx | ⟨y, hy, rfl⟩ := HeadSystem.mem_setPhase hx
  · exact h.phases x hx
  · exact hp y hy

theorem send (h : t.Inv s) (v : UInt64) (task : HeadTask) :
    t.Inv { s with object := s.object.send v ⟨task.head s.volume s.host s.cache, .task task⟩ } := by
  refine h.withObject (Object.Extends.send _ _ _) (h.owned.send v ⟨?_, ?_, ?_⟩) ?_ h.claimed
  · rintro ⟨⟩
  · rintro _ ⟨⟩
    exact ⟨(task.holder_head ..).trans h.host, (task.fence_head ..).trans h.fence⟩
  · rintro ⟨⟩
  · intro r hr
    rcases List.mem_append.mp hr with hr | hr
    · exact h.requests r hr
    · rw [List.mem_singleton.mp hr]
      exact ⟨task, rfl⟩

theorem startRound (h : t.Inv s) (task : HeadTask) :
    t.Inv (s.startRound task).1 ∧
      (s.startRound task).2.Ok (s.startRound task).1.object task ∧
      (s.startRound task).1.tasks = s.tasks := by
  obtain ⟨v, hv⟩ := h.version
  rcases HeadSystem.startRound_cases hv task with ⟨-, -, he⟩ | he <;> rw [he]
  · exact ⟨h, trivial, rfl⟩
  · exact ⟨h.send v task, ⟨task.builds_head .., Object.sent_send ..⟩, rfl⟩

theorem spawn (h : t.Inv s) (task : HeadTask) (base : HeadCache) : t.Inv (s.spawn task base) := by
  obtain ⟨hi, hp, htasks⟩ := h.startRound task
  refine ⟨hi.host, hi.fence, hi.version, hi.owned, hi.requests, hi.claimed, fun x hx => ?_⟩
  rcases List.mem_append.mp hx with hx | hx
  · exact hi.phases x hx
  · rw [List.mem_singleton.mp hx]
    exact hp

theorem resume (h : t.Inv s) {task : HeadTask} (hi : ∀ x, s.tasks[i]? = some x → x.task = task) :
    t.Inv (s.resume i task) := by
  obtain ⟨hs, hp, htasks⟩ := h.startRound task
  refine hs.setPhase fun x hx => ?_
  rw [htasks] at hx
  rw [hi x hx]
  exact hp

theorem found (h : t.Inv s) {task : HeadTask} (hi : ∀ x, s.tasks[i]? = some x → x.task = task)
    (round : Round) (version : UInt64) (head : HeadRecord) :
    t.Inv (s.found i task round version head) := by
  rw [HeadSystem.found]
  split
  · have hstop : t.Inv { s with stopped := true } :=
      ⟨h.host, h.fence, h.version, h.owned, h.requests, h.claimed, h.phases⟩
    exact hstop.setPhase fun _ _ => trivial
  · have hc := h.withCache (task.fence_onFound round s.cache version head)
      (task.headVersion_onFound round s.cache version head)
    dsimp only
    split
    · exact hc.setPhase fun _ _ => trivial
    · exact hc.resume hi
    · exact hc.setPhase fun _ _ => trivial

theorem land (h : t.Inv s) {version : UInt64} (ho : s.object.land i version = some o) :
    t.Inv { s with object := o } := by
  obtain ⟨r, hr, -, hlog, hreq⟩ := Object.land_eq_some ho
  have hr' := List.mem_of_getElem? hr
  refine h.withObject (Object.Extends.land ho) (h.owned.land ho) (fun r' hmem => ?_) fun e he hw => ?_
  · rcases List.mem_or_eq_of_mem_set (hreq ▸ hmem) with hmem | rfl
    · exact h.requests r' hmem
    · exact h.requests r hr'
  · rcases List.mem_cons.mp (hlog ▸ he) with rfl | he
    · obtain ⟨task, htask⟩ := h.requests r hr'
      cases htask.symm.trans hw
    · exact h.claimed e he hw

theorem replace (h : t.Inv s) {version : UInt64} {head : HeadRecord}
    (hother : head.holder ≠ s.host ∨ head.fence ≠ s.cache.fence)
    (ho : s.object.replace version ⟨head, .other⟩ = some o) : t.Inv { s with object := o } := by
  obtain ⟨hlog, hreq⟩ := Object.replace_eq_some ho
  rw [h.host, h.fence] at hother
  refine h.withObject (Object.Extends.replace ho)
    (h.owned.replace ⟨by rintro ⟨⟩, by rintro _ ⟨⟩, fun _ => hother⟩ ho)
    (hreq ▸ h.requests) fun e he hw => ?_
  rcases List.mem_cons.mp (hlog ▸ he) with rfl | he
  · cases hw
  · exact h.claimed e he hw

/-- **Every event preserves the invariant.** -/
theorem event (h : t.Inv s) {a : HeadStep} {s' : HeadSystem} (hs : s.Event a s') : t.Inv s' := by
  have hsnapshot {s : HeadSystem} (h : t.Inv s) (base : Option (Option ManifestPtr)) :
      t.Inv { s with snapshot := base } :=
    ⟨h.host, h.fence, h.version, h.owned, h.requests, h.claimed, h.phases⟩
  cases hs with
  | snapshot => exact hsnapshot h _
  | publish => exact hsnapshot (h.spawn _ _) _
  | transition | activate | removeRetired => exact h.spawn _ _
  | land ho => exact h.land ho
  | other hother ho => exact h.replace hother ho
  | ok ht hv =>
    exact (h.withCache (HeadTask.fence_onOk ..) (HeadTask.headVersion_onOk ..)).setPhase
      fun _ _ => trivial
  | failed _ ht =>
    refine h.setPhase fun y hy => ?_
    rw [HeadSystem.task_eq ht y hy]
    exact (h.phases _ (List.mem_of_getElem? ht)).1
  | serve ht =>
    refine h.setPhase fun y hy => ?_
    rw [HeadSystem.task_eq ht y hy]
    exact ⟨h.phases _ (List.mem_of_getElem? ht), s.object.current_mem_log⟩
  | getUnavailable => exact h.setPhase fun _ _ => trivial
  | found ht => exact h.found (HeadSystem.task_eq ht) _ _ _
  | retry ht => exact h.resume (HeadSystem.task_eq ht)

theorem startRound_frame (h : t.Inv s) (task : HeadTask) :
    s.object.Extends (s.startRound task).1.object ∧
      (s.startRound task).1.stopped = s.stopped := by
  obtain ⟨v, hv⟩ := h.version
  rcases HeadSystem.startRound_cases hv task with ⟨-, -, he⟩ | he <;> rw [he]
  · exact ⟨.refl _, rfl⟩
  · exact ⟨.send _ _ _, rfl⟩

theorem spawn_frame (h : t.Inv s) (task : HeadTask) (base : HeadCache) :
    s.object.Extends (s.spawn task base).object ∧ (s.spawn task base).stopped = s.stopped :=
  h.startRound_frame task

theorem resume_frame (h : t.Inv s) (i : Nat) (task : HeadTask) :
    s.object.Extends (s.resume i task).object ∧ (s.resume i task).stopped = s.stopped :=
  h.startRound_frame task

/-- Only a task that reads back another holder or another fence stops the holder; and no event
takes anything out of the object. -/
theorem event_frame (h : t.Inv s) {a : HeadStep} {s' : HeadSystem} (hs : s.Event a s') :
    s.object.Extends s'.object ∧
      (s'.stopped = true → s.stopped = true ∨
        ∃ i task base round version, ∃ found : StoredHead, a = .found i ∧
          s.tasks[i]? = some ⟨task, base, .served round version found⟩ ∧
          (found.head.holder ≠ s.host ∨ found.head.fence ≠ s.cache.fence)) := by
  cases hs with
  | snapshot => exact ⟨.refl _, .inl⟩
  | @publish pointer base =>
    obtain ⟨hext, hstop⟩ := h.spawn_frame (.publishHead pointer) { s.cache with backed := base }
    exact ⟨hext, fun hs' => .inl (hstop.symm.trans hs')⟩
  | transition | activate | removeRetired =>
    obtain ⟨hext, hstop⟩ := h.spawn_frame _ _
    exact ⟨hext, fun hs' => .inl (hstop.symm.trans hs')⟩
  | land ho => exact ⟨.land ho, .inl⟩
  | other _ ho => exact ⟨.replace ho, .inl⟩
  | ok | failed | serve | getUnavailable => exact ⟨.refl _, .inl⟩
  | @found i task base round version found ht =>
    rw [HeadSystem.found]
    split
    · rename_i hother
      exact ⟨.refl _, fun _ => .inr ⟨i, task, base, round, version, found, rfl, ht, hother⟩⟩
    · have hc := h.withCache (task.fence_onFound round s.cache version found.head)
        (task.headVersion_onFound round s.cache version found.head)
      dsimp only
      split
      · exact ⟨.refl _, .inl⟩
      · obtain ⟨hext, hstop⟩ := hc.resume_frame i task
        exact ⟨hext, fun hs' => .inl (hstop.symm.trans hs')⟩
      · exact ⟨.refl _, .inl⟩
  | retry ht =>
    obtain ⟨hext, hstop⟩ := h.resume_frame _ _
    exact ⟨hext, fun hs' => .inl (hstop.symm.trans hs')⟩

end Inv

end Tenure

theorem HeadSystem.event_of_step (h : s.step a = some s') : s.Event a s' := by
  rw [step, Option.ite_none_left_eq_some] at h
  exact event_of_act h.2

/-! ## Fencing -/

/-- Another claim has replaced this holder's in the head object. -/
def HeadSystem.Superseded (s : HeadSystem) : Prop := ∃ e ∈ s.object.log, e.2.writer = .other

/-- No task reads back the holder's own claim with the provisional fence still in it. -/
def HeadSystem.ReadsFinalFence (s : HeadSystem) : HeadStep → Prop
  | .found i =>
    match s.tasks[i]? with
    | some ⟨_, _, .served _ version found⟩ =>
      ¬ (found.head.holder = s.host ∧ found.head.fence = 0 ∧ version = s.cache.fence)
    | _ => True
  | _ => True

/-- A head that fails the fence test is another claim's, or the own claim before its fence was
written. -/
theorem Tenure.Inv.other_or_provisional {t : Tenure} (h : t.Inv s) {version : UInt64}
    {found : StoredHead} (hm : (version, found) ∈ s.object.log)
    (hfence : found.head.holder ≠ s.host ∨ found.head.fence ≠ s.cache.fence) :
    found.writer = .other ∨
      found.head.holder = s.host ∧ found.head.fence = 0 ∧ version = s.cache.fence := by
  have howned := h.owned.log _ hm
  rw [h.host, h.fence] at hfence ⊢
  rcases hw : found.writer with _ | task | _
  · have hhead := howned.claim hw
    have hfence' := t.claim.fence_head t.volume t.host t.fence
    rw [hhead, Tenure.head, hfence', Claim.holder_head] at hfence ⊢
    by_cases hprov : t.claim.provisional = true
    · rw [if_pos hprov]
      exact .inr ⟨rfl, rfl, (h.claimed _ hm hw).trans (t.version_eq hprov)⟩
    · rw [if_neg hprov] at hfence
      simp at hfence
  · obtain ⟨hholder, hf⟩ := howned.task task hw
    rcases hfence with hne | hne
    · exact absurd hholder hne
    · exact absurd hf hne
  · exact .inl rfl

/-- The invariant of the fence test. -/
def Tenure.FenceSound (t : Tenure) (s : HeadSystem) : Prop :=
  t.Inv s ∧ (s.stopped = true → s.Superseded)

theorem Tenure.fenceSound_step {t : Tenure} (h : t.FenceSound s) (hread : s.ReadsFinalFence a)
    (hstep : s.step a = some s') : t.FenceSound s' := by
  obtain ⟨hinv, hs⟩ := h
  have hevent := HeadSystem.event_of_step hstep
  obtain ⟨hext, hcause⟩ := hinv.event_frame hevent
  refine ⟨hinv.event hevent, fun hstop => ?_⟩
  rcases hcause hstop with hold | ⟨i, task, base, round, version, found, rfl, ht, hfence⟩
  · obtain ⟨e, he, hw⟩ := hs hold
    exact ⟨e, hext.log e he, hw⟩
  · have hm := (hinv.phases _ (List.mem_of_getElem? ht)).2
    rcases hinv.other_or_provisional hm hfence with hw | hprov
    · exact ⟨_, hext.log _ hm, hw⟩
    · simp only [HeadSystem.ReadsFinalFence, ht] at hread
      exact absurd hprov hread

/-- **No false fencing.**  In a run where no task reads back the holder's own provisional claim, the
holder stops only after another claim has replaced its own. -/
theorem stopped_superseded (t : Tenure) {s : HeadSystem} {as : List HeadStep}
    (hok : Run.Along HeadSystem.step HeadSystem.ReadsFinalFence t.start as)
    (hrun : Run.run HeadSystem.step t.start as = some s) (hstop : s.stopped = true) :
    s.Superseded := by
  have hstart : t.FenceSound t.start := ⟨t.inv_start, by rintro ⟨⟩⟩
  exact (Run.run_invariant (fun _ _ _ => Tenure.fenceSound_step) hstart hok hrun).2 hstop

/-- A volume that host 1 has just created, with peer 2 as its passive. -/
def createdVolume : Tenure where
  volume := 7
  host := 1
  claim := .created (initialStash 2 0)
  fence := 1
  version := 1
  version_eq := fun _ => rfl
  coherent := ⟨by decide, by decide, by decide⟩

/-- Its first manifest. -/
def firstManifest : ManifestPtr where
  fence := 1
  journalSeq := 1
  seq := 0
  captureSeq := 5
  checksum := 0

/-- The first publication of a new volume meets another host's claim. -/
def supersededRun : List HeadStep :=
  [.snapshot, .publish firstManifest, .other 2 ⟨7, 3, 0, none, none, []⟩, .conflict 0, .serve 0,
    .found 0]

theorem stopped_superseded_by_claim :
    ∃ s, Run.run HeadSystem.step createdVolume.start supersededRun = some s ∧
      s.stopped = true ∧ s.Superseded := by
  have hok : Run.Along HeadSystem.step HeadSystem.ReadsFinalFence createdVolume.start
      supersededRun := by
    have hholder : (3 : HostId) ≠ 1 := by decide
    refine .cons trivial rfl (.cons trivial rfl (.cons trivial rfl ?_))
    exact .cons trivial rfl (.cons trivial rfl (.cons (fun h => hholder h.1) rfl trivial))
  exact ⟨_, rfl, rfl, stopped_superseded createdVolume hok rfl rfl⟩

/-- **A holder can be fenced by its own claim.**  The first publication of a new volume does not
reach the store; the task reads the claim back, whose fence is still zero, and stops the volume. -/
theorem not_stopped_superseded :
    ¬ ∀ (t : Tenure) (s : HeadSystem) (as : List HeadStep),
      Run.run HeadSystem.step t.start as = some s → s.stopped = true → s.Superseded := by
  intro h
  obtain ⟨e, he, hw⟩ := h createdVolume _
    [.snapshot, .publish firstManifest, .unknown 0, .serve 0, .found 0] rfl rfl
  rw [List.mem_singleton.mp he] at hw
  cases hw

end Blockd
