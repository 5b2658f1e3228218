import Uartd.ThreadPool.Basic

/-!
# Uartd — the job chain of the pool

`Rep pool heap q` says that the chain from `pool->head` holds the jobs `q`
(address, callback and argument, in order), ends in NULL, that `pool->tail` is
its last job, and that `queue_cur_num` counts it. The two regions that change
the chain are described once, by what they do to `q`:

* `threadpoolAddJob_cases` — wait, refuse and change nothing, or append a job;
* `threadpoolFunction_cases` — wait, exit, or take the first job.

A step of the pool says how its region ended, so the proofs about steps use the
lemma for that end (`threadpoolAddJob_wait`, `threadpoolAddJob_ret`,
`threadpoolFunction_wait`, `threadpoolFunction_exit`, `threadpoolFunction_job`).

Neither faults on a represented chain (`threadpoolAddJob_ne_none`,
`threadpoolFunction_ne_none`).

Emptiness is represented twice in the pool (`head == NULL` for the producers,
`queue_cur_num == 0` for the workers); `Rep.head_eq_none_iff` and
`Rep.count_eq_zero_iff` say that both mean `q = []`.
-/

namespace Uartd.ThreadPool

open Uartd.Lib

variable {F A : Type}

/-- What a job carries. -/
def Job.payload (j : Job F A) : F × A := (j.callbackFunction, j.arg)

abbrev Entry (F A : Type) := JobId × F × A

structure Rep (pool : Threadpool) (heap : Heap F A) (q : List (Entry F A)) : Prop where
  seg   : Seg Job.next Job.payload heap pool.head q none
  tail  : pool.tail = (q.map Prod.fst).getLast?
  nodup : (q.map Prod.fst).Nodup
  count : pool.queueCurNum = q.length

namespace Rep

variable {pool : Threadpool} {heap heap' : Heap F A} {q : List (Entry F A)}

theorem head_eq_none_iff (h : Rep pool heap q) : pool.head = none ↔ q = [] := by
  cases q with
  | nil => simpa using h.seg
  | cons e q =>
    have hhead : pool.head = some e.1 := h.seg.1
    simp [hhead]

theorem count_eq_zero_iff (h : Rep pool heap q) : pool.queueCurNum = 0 ↔ q = [] := by
  rw [h.count, ← List.length_eq_zero_iff]
  omega

theorem allocated (h : Rep pool heap q) {id : JobId} (hid : id ∈ q.map Prod.fst) :
    heap id ≠ none := by
  obtain ⟨e, he, rfl⟩ := List.mem_map.mp hid
  obtain ⟨c, hc, -⟩ := h.seg.lookup (x := e.1) (d := e.2) he
  simp [hc]

/-- The jobs on the chain are determined by it. -/
theorem functional {q' : List (Entry F A)} (h : Rep pool heap q) (h' : Rep pool heap q') :
    q = q' := by
  have h₁ := h.count
  have h₂ := h'.count
  exact h.seg.functional h'.seg (by omega)

/-- The chain only depends on its own cells. -/
theorem congr_heap (h : Rep pool heap q) (heq : ∀ id ∈ q.map Prod.fst, heap' id = heap id) :
    Rep pool heap' q :=
  { h with seg := h.seg.congr_heap heq }

/-- The close flags are not part of the chain. -/
theorem congr_pool {pool' : Threadpool} (h : Rep pool heap q) (hhead : pool'.head = pool.head)
    (htail : pool'.tail = pool.tail) (hcur : pool'.queueCurNum = pool.queueCurNum) :
    Rep pool' heap q :=
  ⟨by rw [hhead]; exact h.seg, by rw [htail]; exact h.tail, h.nodup, by rw [hcur]; exact h.count⟩

end Rep

-- ---------------------------------------------------------------------------
-- threadpool_add_job
-- ---------------------------------------------------------------------------

-- The job is linked: as the only one, with a broadcast, or behind the tail.
private theorem addJob_append {pool : Threadpool} {heap : Heap F A} {q : List (Entry F A)}
    (h : Rep pool heap q) {id : JobId} {f : F} {a : A} {r : AddJobRegion F A}
    (hfresh : heap id = none) (hopen : ¬(pool.queueClose ∨ pool.poolClose))
    (hfull : pool.queueCurNum ≠ pool.queueMaxNum)
    (hrun : threadpoolAddJob pool heap (some id) f a = some r) :
    r.ends = .ret 0 ∧ Rep r.pool r.heap (q ++ [(id, f, a)]) ∧
      r.pool.threadNum = pool.threadNum ∧ r.pool.queueMaxNum = pool.queueMaxNum ∧
      r.pool.queueClose = pool.queueClose ∧ r.pool.poolClose = pool.poolClose ∧
      r.broadcastNotEmpty = decide (q = []) ∧
      (∀ j, j ≠ id → (r.heap j).map Job.payload = (heap j).map Job.payload) := by
  have hid : id ∉ q.map Prod.fst := fun hmem => h.allocated hmem hfresh
  rw [threadpoolAddJob, if_neg (by tauto), if_neg hopen] at hrun
  rcases List.eq_nil_or_concat q with rfl | ⟨q, e, rfl⟩
  · -- the queue was empty: head and tail are both the new job
    have hhead : pool.head = none := h.head_eq_none_iff.mpr rfl
    simp only [hhead, Option.some.injEq] at hrun
    subst hrun
    have hcount : pool.queueCurNum = 0 := h.count
    refine ⟨rfl, ⟨?_, rfl, by simp, by simp [hcount]⟩, rfl, rfl, rfl, rfl, by simp, ?_⟩
    · simp [Job.payload]
    · intro j hj
      simp [Function.update_of_ne hj]
  · -- it goes behind the last job
    rw [List.concat_eq_append] at h hid ⊢
    obtain ⟨t, ft, at_⟩ := e
    have htail : pool.tail = some t := by rw [h.tail]; simp
    have hhead : pool.head ≠ none := by
      rw [Ne, h.head_eq_none_iff]
      simp
    obtain ⟨hd, hhd⟩ := Option.ne_none_iff_exists'.mp hhead
    obtain ⟨tjob, htjob, hpay⟩ := h.seg.lookup (x := t) (d := (ft, at_)) (by simp)
    have hne : t ≠ id := by
      rintro rfl
      exact hid (by simp)
    simp only [hhd, htail, Option.bind_eq_bind, Option.bind_some, Function.update_of_ne hne, htjob,
      Option.some.injEq] at hrun
    subst hrun
    have hnd := h.nodup
    rw [List.map_append, List.nodup_append] at hnd
    refine ⟨rfl, ⟨?_, by simp, ?_, ?_⟩, rfl, rfl, rfl, rfl, by simp, ?_⟩
    · have hseg := h.seg
      rw [hhd] at hseg
      refine hseg.snoc { tjob with next := some id } ⟨f, a, none⟩
        ?_ hid ?_ hpay rfl ?_ rfl rfl ?_
      · intro hmem
        exact hnd.2.2 _ hmem _ (by simp) rfl
      · simp
      · simp [Function.update_of_ne hne.symm]
      · intro y hyt hyi
        simp [hyt, hyi]
    · rw [List.map_append, List.nodup_append]
      refine ⟨h.nodup, by simp, ?_⟩
      rintro x hx y hy rfl
      simp only [List.map_cons, List.map_nil, List.mem_singleton] at hy
      exact hid (hy ▸ hx)
    · have := h.count
      simp only [List.length_append, List.length_singleton] at this ⊢
      push_cast at this ⊢
      omega
    · intro j hj
      by_cases hjt : j = t
      · subst hjt
        simp [htjob, Job.payload]
      · simp [hj, hjt]

/-- **What a region of `threadpool_add_job` can do.** -/
theorem threadpoolAddJob_cases {pool : Threadpool} {heap : Heap F A} {q : List (Entry F A)}
    (h : Rep pool heap q) {alloc : Option JobId} {f : F} {a : A} {r : AddJobRegion F A}
    (hfresh : ∀ id, alloc = some id → heap id = none)
    (hrun : threadpoolAddJob pool heap alloc f a = some r) :
    (r.ends = .wait ∧ r.pool = pool ∧ r.heap = heap ∧
      pool.queueCurNum = pool.queueMaxNum ∧ pool.queueClose = false ∧ pool.poolClose = false) ∨
    (r.ends = .ret (-1) ∧ r.pool = pool ∧ r.heap = heap ∧ r.broadcastNotEmpty = false) ∨
    ∃ id, r.ends = .ret 0 ∧ heap id = none ∧ pool.queueClose = false ∧ pool.poolClose = false ∧
      pool.queueCurNum ≠ pool.queueMaxNum ∧ Rep r.pool r.heap (q ++ [(id, f, a)]) ∧
      r.pool.threadNum = pool.threadNum ∧ r.pool.queueMaxNum = pool.queueMaxNum ∧
      r.pool.queueClose = pool.queueClose ∧ r.pool.poolClose = pool.poolClose ∧
      r.broadcastNotEmpty = decide (q = []) ∧
      (∀ j, j ≠ id → (r.heap j).map Job.payload = (heap j).map Job.payload) := by
  by_cases hclosed : pool.queueClose ∨ pool.poolClose
  · unfold threadpoolAddJob at hrun
    rw [if_neg (by tauto), if_pos hclosed, Option.some.injEq] at hrun
    subst hrun
    exact .inr (.inl ⟨rfl, rfl, rfl, rfl⟩)
  · have hflags : pool.queueClose = false ∧ pool.poolClose = false := by
      simpa using hclosed
    by_cases hfull : pool.queueCurNum = pool.queueMaxNum
    · unfold threadpoolAddJob at hrun
      rw [if_pos ⟨hfull, hclosed⟩, Option.some.injEq] at hrun
      subst hrun
      exact .inl ⟨rfl, rfl, rfl, hfull, hflags.1, hflags.2⟩
    · cases alloc with
      | none =>
        rw [threadpoolAddJob, if_neg (by tauto), if_neg hclosed] at hrun
        simp only [Option.some.injEq] at hrun
        subst hrun
        exact .inr (.inl ⟨rfl, rfl, rfl, rfl⟩)
      | some id =>
        obtain ⟨hends, hrest⟩ := addJob_append h (hfresh id rfl) hclosed hfull hrun
        exact .inr (.inr ⟨id, hends, hfresh id rfl, hflags.1, hflags.2, hfull, hrest⟩)

-- The same by how the region ended, and that it does not touch the close flags.
section AddJob

variable {pool : Threadpool} {heap : Heap F A} {q : List (Entry F A)} {alloc : Option JobId}
  {f : F} {a : A} {r : AddJobRegion F A}

theorem threadpoolAddJob_wait (h : Rep pool heap q)
    (hfresh : ∀ id, alloc = some id → heap id = none)
    (hrun : threadpoolAddJob pool heap alloc f a = some r) (hends : r.ends = .wait) :
    r.pool = pool ∧ r.heap = heap ∧ pool.queueCurNum = pool.queueMaxNum := by
  rcases threadpoolAddJob_cases h hfresh hrun with ⟨-, hp, hh, hfull, -⟩ | ⟨hr, -⟩ | ⟨id, hr, -⟩
  · exact ⟨hp, hh, hfull⟩
  · rw [hends] at hr
    simp at hr
  · rw [hends] at hr
    simp at hr

theorem threadpoolAddJob_ret {v : Int} (h : Rep pool heap q)
    (hfresh : ∀ id, alloc = some id → heap id = none)
    (hrun : threadpoolAddJob pool heap alloc f a = some r) (hends : r.ends = .ret v) :
    (v = -1 ∧ r.pool = pool ∧ r.heap = heap ∧ r.broadcastNotEmpty = false) ∨
    (v = 0 ∧ ∃ id, heap id = none ∧ pool.queueClose = false ∧ pool.poolClose = false ∧
      pool.queueCurNum ≠ pool.queueMaxNum ∧ Rep r.pool r.heap (q ++ [(id, f, a)]) ∧
      r.pool.threadNum = pool.threadNum ∧ r.pool.queueMaxNum = pool.queueMaxNum ∧
      r.pool.queueClose = pool.queueClose ∧ r.pool.poolClose = pool.poolClose ∧
      r.broadcastNotEmpty = decide (q = []) ∧
      (∀ j, j ≠ id → (r.heap j).map Job.payload = (heap j).map Job.payload)) := by
  rcases threadpoolAddJob_cases h hfresh hrun with ⟨hr, -⟩ | ⟨hr, hrest⟩ | ⟨id, hr, hrest⟩
  · rw [hends] at hr
    simp at hr
  · rw [hends, AddJobEnd.ret.injEq] at hr
    exact .inl ⟨hr, hrest⟩
  · rw [hends, AddJobEnd.ret.injEq] at hr
    exact .inr ⟨hr, id, hrest⟩

theorem threadpoolAddJob_queueClose (h : Rep pool heap q)
    (hfresh : ∀ id, alloc = some id → heap id = none)
    (hrun : threadpoolAddJob pool heap alloc f a = some r) :
    r.pool.queueClose = pool.queueClose := by
  rcases threadpoolAddJob_cases h hfresh hrun with ⟨-, hp, -⟩ | ⟨-, hp, -⟩ |
    ⟨id, -, -, -, -, -, -, -, -, hqc, -⟩
  · rw [hp]
  · rw [hp]
  · exact hqc

theorem threadpoolAddJob_poolClose (h : Rep pool heap q)
    (hfresh : ∀ id, alloc = some id → heap id = none)
    (hrun : threadpoolAddJob pool heap alloc f a = some r) :
    r.pool.poolClose = pool.poolClose := by
  rcases threadpoolAddJob_cases h hfresh hrun with ⟨-, hp, -⟩ | ⟨-, hp, -⟩ |
    ⟨id, -, -, -, -, -, -, -, -, -, hpc, -⟩
  · rw [hp]
  · rw [hp]
  · exact hpc

end AddJob

/-- A region of `threadpool_add_job` dereferences neither NULL nor a freed job. -/
theorem threadpoolAddJob_ne_none {pool : Threadpool} {heap : Heap F A} {q : List (Entry F A)}
    (h : Rep pool heap q) (alloc : Option JobId) (f : F) (a : A) :
    threadpoolAddJob pool heap alloc f a ≠ none := by
  unfold threadpoolAddJob
  split
  · simp
  · split
    · simp
    · cases alloc with
      | none => simp
      | some id =>
        cases hhead : pool.head with
        | none => simp
        | some hd =>
          -- the chain is not empty, so its tail is a job on it
          have hne : q.map Prod.fst ≠ [] := by
            intro hq
            rw [List.map_eq_nil_iff] at hq
            rw [h.head_eq_none_iff.mpr hq] at hhead
            simp at hhead
          obtain ⟨t, hmem, htail⟩ : ∃ t ∈ q.map Prod.fst, pool.tail = some t :=
            ⟨_, List.getLast_mem hne, by rw [h.tail, List.getLast?_eq_some_getLast hne]⟩
          obtain ⟨tjob, htjob⟩ := Option.ne_none_iff_exists'.mp (h.allocated hmem)
          by_cases hid : t = id
          · simp [htail, hid]
          · simp [htail, Function.update_of_ne hid, htjob]

-- ---------------------------------------------------------------------------
-- threadpool_function
-- ---------------------------------------------------------------------------

/-- A region of `threadpool_function` finds a job whenever it looks for one. -/
theorem threadpoolFunction_ne_none {pool : Threadpool} {heap : Heap F A} {q : List (Entry F A)}
    (h : Rep pool heap q) : threadpoolFunction pool heap ≠ none := by
  unfold threadpoolFunction
  split
  · simp
  · split
    · simp
    · rename_i hwait hclose
      have hcur : pool.queueCurNum ≠ 0 := by tauto
      cases q with
      | nil => exact absurd (h.count_eq_zero_iff.mpr rfl) hcur
      | cons e q =>
        obtain ⟨hhead, job, hjob, -⟩ := h.seg
        by_cases hlast : pool.queueCurNum - 1 = 0
        · simp [hhead, hlast]
        · simp [hhead, hlast, hjob]

/-- **What a region of `threadpool_function` can do.** -/
theorem threadpoolFunction_cases {pool : Threadpool} {heap : Heap F A} {q : List (Entry F A)}
    (h : Rep pool heap q) {r : WorkerRegion} (hrun : threadpoolFunction pool heap = some r) :
    (r.ends = .wait ∧ r.pool = pool ∧ pool.queueCurNum = 0 ∧ pool.poolClose = false) ∨
    (r.ends = .exit ∧ r.pool = pool ∧ pool.poolClose = true) ∨
    ∃ id f a q', r.ends = .job id ∧ q = (id, f, a) :: q' ∧ pool.poolClose = false ∧
      Rep r.pool heap q' ∧
      r.pool.threadNum = pool.threadNum ∧ r.pool.queueMaxNum = pool.queueMaxNum ∧
      r.pool.queueClose = pool.queueClose ∧ r.pool.poolClose = pool.poolClose ∧
      r.signalEmpty = decide (r.pool.queueCurNum = 0) ∧
      r.broadcastNotFull = decide (r.pool.queueCurNum = pool.queueMaxNum - 1) := by
  unfold threadpoolFunction at hrun
  by_cases hclose : pool.poolClose = true
  · simp only [hclose, not_true_eq_false, and_false, if_false, if_true, Option.some.injEq] at hrun
    subst hrun
    exact .inr (.inl ⟨rfl, rfl, hclose⟩)
  · have hopen : pool.poolClose = false := by simpa using hclose
    by_cases hzero : pool.queueCurNum = 0
    · rw [if_pos ⟨hzero, hclose⟩, Option.some.injEq] at hrun
      subst hrun
      exact .inl ⟨rfl, rfl, hzero, hopen⟩
    · rw [if_neg (by tauto), if_neg hclose] at hrun
      cases q with
      | nil => exact absurd (h.count_eq_zero_iff.mpr rfl) hzero
      | cons e q =>
        obtain ⟨id, f, a⟩ := e
        obtain ⟨hhead, job, hjob, -, hrest⟩ := h.seg
        have hcount : pool.queueCurNum = q.length + 1 := by
          have := h.count
          simpa using this
        have hnd := h.nodup
        simp only [List.map_cons, List.nodup_cons] at hnd
        refine .inr (.inr ⟨id, f, a, q, ?_⟩)
        simp only [hhead, Option.bind_eq_bind, Option.bind_some] at hrun
        by_cases hlast : pool.queueCurNum - 1 = 0
        · -- the last job: head and tail are cleared
          have hq : q = [] := by
            rw [← List.length_eq_zero_iff]
            omega
          subst hq
          simp only [hlast, if_true, Option.some.injEq] at hrun
          subst hrun
          exact ⟨rfl, rfl, hopen, ⟨rfl, rfl, by simp, rfl⟩, rfl, rfl, rfl, rfl, rfl, rfl⟩
        · simp only [hlast, if_false, hjob, Option.map_some, Option.bind_some,
            Option.some.injEq] at hrun
          subst hrun
          refine ⟨rfl, rfl, hopen, ⟨hrest, ?_, hnd.2, ?_⟩, rfl, rfl, rfl, rfl, ?_, ?_⟩
          · have hne : q ≠ [] := by
              rintro rfl
              exact hlast (by rw [hcount]; simp)
            obtain ⟨e, q, rfl⟩ := List.exists_cons_of_ne_nil hne
            have htail := h.tail
            simpa [List.getLast?_cons_cons] using htail
          · show pool.queueCurNum - 1 = q.length
            omega
          · simp [hlast]
          · rfl

-- The same by how the region ended.
section Function

variable {pool : Threadpool} {heap : Heap F A} {q : List (Entry F A)} {r : WorkerRegion}

theorem threadpoolFunction_wait (h : Rep pool heap q) (hrun : threadpoolFunction pool heap = some r)
    (hends : r.ends = .wait) : r.pool = pool ∧ pool.queueCurNum = 0 ∧ pool.poolClose = false := by
  rcases threadpoolFunction_cases h hrun with ⟨-, hrest⟩ | ⟨hr, -⟩ | ⟨id, f, a, q', hr, -⟩
  · exact hrest
  · rw [hends] at hr
    simp at hr
  · rw [hends] at hr
    simp at hr

theorem threadpoolFunction_exit (h : Rep pool heap q) (hrun : threadpoolFunction pool heap = some r)
    (hends : r.ends = .exit) : r.pool = pool ∧ pool.poolClose = true := by
  rcases threadpoolFunction_cases h hrun with ⟨hr, -⟩ | ⟨-, hrest⟩ | ⟨id, f, a, q', hr, -⟩
  · rw [hends] at hr
    simp at hr
  · exact hrest
  · rw [hends] at hr
    simp at hr

theorem threadpoolFunction_job {pjob : JobId} (h : Rep pool heap q)
    (hrun : threadpoolFunction pool heap = some r) (hends : r.ends = .job pjob) :
    ∃ f a q', q = (pjob, f, a) :: q' ∧ pool.poolClose = false ∧ Rep r.pool heap q' ∧
      r.pool.threadNum = pool.threadNum ∧ r.pool.queueMaxNum = pool.queueMaxNum ∧
      r.pool.queueClose = pool.queueClose ∧ r.pool.poolClose = pool.poolClose ∧
      r.signalEmpty = decide (r.pool.queueCurNum = 0) ∧
      r.broadcastNotFull = decide (r.pool.queueCurNum = pool.queueMaxNum - 1) := by
  rcases threadpoolFunction_cases h hrun with ⟨hr, -⟩ | ⟨hr, -⟩ | ⟨id, f, a, q', hr, hrest⟩
  · rw [hends] at hr
    simp at hr
  · rw [hends] at hr
    simp at hr
  · rw [hends, WorkerEnd.job.injEq] at hr
    subst hr
    exact ⟨f, a, q', hrest⟩

/-- A worker does not touch the close flags. -/
theorem threadpoolFunction_queueClose (h : Rep pool heap q)
    (hrun : threadpoolFunction pool heap = some r) : r.pool.queueClose = pool.queueClose := by
  rcases threadpoolFunction_cases h hrun with ⟨-, hp, -⟩ | ⟨-, hp, -⟩ |
    ⟨id, f, a, q', -, -, -, -, -, -, hqc, -⟩
  · rw [hp]
  · rw [hp]
  · exact hqc

end Function

end Uartd.ThreadPool
