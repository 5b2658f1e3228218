import Uartd.Report.KeyReport

/-!
# Uartd — what a report leaves (report_key.c)

* `getDuercfg_spec` — of the configuration only the copy of the device id is left;
* `transfer_of_perform` — the transfer here and the one in memory are two levels of
  one;
* `curlReport_spec`, `fillReport_spec`, `buildReport_spec` — what the parts of a report
  leave, and on what they fault;
* `reports_leave` — all of it, for every sequence of reports.
-/

namespace Uartd.Report

open Uartd.Lib Uartd.Protocol

variable {h : History Op.Ret} {m : Multiset Resource} {tr : History Op.Ret}
  {f : Called Op.Ret → Multiset Resource}

theorem owned_append (e : Called Op.Ret) : owned (h ++ [e]) = given e + (owned h - taken e) := by
  rw [owned, List.foldl_append]
  rfl

/-- A call that takes nothing. -/
theorem owned_give (howned : owned h = m) {e : Called Op.Ret} {x : Multiset Resource}
    (hgiven : given e = x) (htaken : taken e = 0) : owned (h ++ [e]) = x + m := by
  rw [owned_append, hgiven, htaken, tsub_zero, howned]

/-- A call that neither gives nor takes. -/
theorem owned_keep (howned : owned h = m) {e : Called Op.Ret} (hgiven : given e = 0)
    (htaken : taken e = 0) : owned (h ++ [e]) = m := by
  rw [owned_give howned hgiven htaken, zero_add]

/-- A call that gives nothing. -/
theorem owned_take {e : Called Op.Ret} (howned : owned h = taken e + m) (he : given e = 0) :
    owned (h ++ [e]) = m := by
  rw [owned_append, he, howned, zero_add, add_tsub_cancel_left]

theorem tally_append (tr tr' : History Op.Ret) :
    tally f (tr ++ tr') = tally f tr + tally f tr' := by
  rw [tally, List.map_append, List.sum_append]
  rfl

-- ---------------------------------------------------------------------------
-- What the functions owe
-- ---------------------------------------------------------------------------

/-- `h'` goes on from `h` with calls that include `es`, have copied `c`, allocated `b`
for a reply and abandoned `a`. -/
def Since (h : History Op.Ret) (es : List (Called Op.Ret)) (c b a : Multiset Resource)
    (h' : History Op.Ret) : Prop :=
  ∃ tr, h' = h ++ tr ∧ es ⊆ tr ∧ tally copied tr = c ∧ tally replied tr = b ∧ tally abandoned tr = a

variable {h' h'' : History Op.Ret} {es es' : List (Called Op.Ret)}
  {c b a c' b' a' : Multiset Resource}

theorem Since.refl : Since h [] 0 0 0 h :=
  ⟨[], (List.append_nil h).symm, List.nil_subset [], rfl, rfl, rfl⟩

theorem Since.trans (hsince : Since h es c b a h') (hsince' : Since h' es' c' b' a' h'') :
    Since h (es' ++ es) (c + c') (b + b') (a + a') h'' := by
  obtain ⟨tr, rfl, hes, rfl, rfl, rfl⟩ := hsince
  obtain ⟨tr', rfl, hes', rfl, rfl, rfl⟩ := hsince'
  refine ⟨tr ++ tr', List.append_assoc h tr tr', ?_, tally_append tr tr', tally_append tr tr',
    tally_append tr tr'⟩
  exact List.append_subset.mpr ⟨List.subset_append_of_subset_right _ hes',
    List.subset_append_of_subset_left _ hes⟩

/-- One call. -/
theorem Since.one (e : Called Op.Ret) :
    Since h [e] (copied e) (replied e) (abandoned e) (h ++ [e]) := by
  refine ⟨[e], rfl, List.Subset.refl _, ?_, ?_, ?_⟩ <;> exact add_zero _

theorem Since.note (hsince : Since h es c b a h') {e : Called Op.Ret} (hc : copied e = 0)
    (hb : replied e = 0) (ha : abandoned e = 0) : Since h (e :: es) c b a (h' ++ [e]) := by
  have htrans := hsince.trans (.one e)
  rwa [hc, hb, ha, add_zero, add_zero, add_zero] at htrans

theorem Since.forget (hsince : Since h es c b a h') (hes : es' ⊆ es) : Since h es' c b a h' := by
  obtain ⟨tr, htr, hsub, hrest⟩ := hsince
  exact ⟨tr, htr, List.Subset.trans hes hsub, hrest⟩

/-- A call that does none of this. -/
theorem Since.quiet (hsince : Since h es c b a h') {e : Called Op.Ret} (hc : copied e = 0)
    (hb : replied e = 0) (ha : abandoned e = 0) : Since h es c b a (h' ++ [e]) :=
  (hsince.note hc hb ha).forget (List.subset_cons_self _ _)

/-- What is left of reading the configuration is the copy of the device id. -/
def Configured (h : History Op.Ret) (m : Multiset Resource) (h' : History Op.Ret)
    (device : Option ℕ) : Prop :=
  Since h [] (blocks device) 0 0 h' ∧ owned h' = blocks device + m

/-- From the label `Err2` on. -/
theorem free_spec {r : Int × Option (ℕ × List UInt8)} {str : Option ℕ}
    (hsince : Since h [] (blocks (r.2.map Prod.fst)) 0 0 h')
    (howned : owned h' = blocks str + (blocks (r.2.map Prod.fst) + m)) :
    Prog.wp kernel (do freeCall str; pure r)
      (fun h' r => Configured h m h' (r.2.map Prod.fst)) h' := by
  rw [Prog.wp_bind, Prog.wp_ask]
  refine ⟨?_, fun _ _ => ⟨hsince.quiet rfl rfl rfl, owned_take howned rfl⟩⟩
  show blocks str ≤ owned h'
  rw [howned]
  exact Multiset.le_add_right _ _

/-- From the label `Err3` on. -/
theorem put_spec {r : Int × Option (ℕ × List UInt8)} {str : Option ℕ} {obj : JsonPtr}
    (hobj : obj = .null ∨ ∃ a, obj = .root a)
    (hsince : Since h [] (blocks (r.2.map Prod.fst)) 0 0 h')
    (howned : owned h' = obj.roots + (blocks str + (blocks (r.2.map Prod.fst) + m))) :
    Prog.wp kernel (do put obj; freeCall str; pure r)
      (fun h' r => Configured h m h' (r.2.map Prod.fst)) h' := by
  rw [Prog.wp_bind, Prog.wp_ask]
  refine ⟨?_, fun _ _ => free_spec (hsince.quiet rfl rfl rfl) (owned_take howned rfl)⟩
  rcases hobj with rfl | ⟨a, rfl⟩
  · exact .inl rfl
  · refine .inr ⟨a, rfl, ?_⟩
    rw [howned]
    exact Multiset.mem_add.mpr (.inl (Multiset.mem_singleton_self _))

theorem getDuercfg_spec (howned : owned h = m) (pName : String) :
    Prog.wp kernel (getDuercfg pName) (fun h' r => Configured h m h' (r.2.map Prod.fst)) h := by
  unfold getDuercfg
  rw [Prog.wp_bind, Prog.wp_ask]
  refine ⟨trivial, fun ⟨err, str⟩ hstr => ?_⟩
  replace hstr : str = none ↔ err < 0 := hstr
  have hsince : Since h [] 0 0 0
      (h ++ [⟨.fpReadFile "/root/appresources/dueros_config.json" "r", (err, str)⟩]) :=
    Since.refl.quiet rfl rfl rfl
  have hread :
      owned (h ++ [⟨.fpReadFile "/root/appresources/dueros_config.json" "r", (err, str)⟩]) =
        blocks str + (blocks none + m) := by
    rw [owned_give howned rfl rfl]
    exact congrArg _ (zero_add m).symm
  dsimp only
  split
  · rename_i herr
    obtain rfl := hstr.mpr herr
    exact ⟨hsince, hread.trans (zero_add _)⟩
  rename_i herr
  obtain ⟨a, rfl⟩ := Option.ne_none_iff_exists'.mp (fun hnone => herr (hstr.mp hnone))
  rw [Prog.wp_bind, Prog.wp_ask]
  refine ⟨⟨a, rfl, ?_⟩, fun obj hobj => ?_⟩
  · rw [hread]
    exact Multiset.mem_add.mpr (.inl (Multiset.mem_singleton_self _))
  replace hsince := hsince.quiet (e := ⟨.tokenerParse (some a), obj⟩) rfl rfl rfl
  have hparsed := owned_give hread (e := ⟨.tokenerParse (some a), obj⟩) rfl rfl
  replace hobj : obj = .null ∨ obj = .error ∨ ∃ a, obj = .root a := hobj
  split
  · rename_i herror
    obtain rfl := of_decide_eq_true herror
    exact free_spec (r := (-2, none)) hsince (hparsed.trans (zero_add _))
  rename_i herror
  replace hobj : obj = .null ∨ ∃ a, obj = .root a := by
    rcases hobj with hnull | herr' | hroot
    · exact .inl hnull
    · exact absurd (decide_eq_true herr') herror
    · exact .inr hroot
  have halive : ∀ {a}, obj = .root a → ∀ {m'}, .json a ∈ obj.roots + m' := by
    rintro a rfl m'
    exact Multiset.mem_add.mpr (.inl (Multiset.mem_singleton_self _))
  rw [Prog.wp_bind, Prog.wp_ask]
  refine ⟨hobj.imp id ?_, fun attrObj hattr => ?_⟩
  · rintro ⟨a, rfl⟩
    show _ ∈ owned _
    rw [hparsed]
    exact halive rfl
  replace hsince := hsince.quiet (e := ⟨.objectGet obj pName, attrObj⟩) rfl rfl rfl
  have hlooked := owned_keep hparsed (e := ⟨.objectGet obj pName, attrObj⟩) rfl rfl
  replace hattr : attrObj = .null ∨ attrObj = .error ∨
    ∃ a, obj = .root a ∧ attrObj = .member a := hattr
  split
  · exact put_spec (r := (-3, none)) hobj hsince hlooked
  rename_i herror'
  rw [Prog.wp_bind, Prog.wp_ask]
  refine ⟨?_, fun attr _ => ?_⟩
  · rcases hattr with hnull | herr' | ⟨a, hroot, rfl⟩
    · exact .inl hnull
    · exact absurd (decide_eq_true herr') herror'
    · refine .inr ?_
      show _ ∈ owned _
      rw [hlooked]
      exact halive hroot
  replace hsince := hsince.quiet (e := ⟨.getString attrObj, attr⟩) rfl rfl rfl
  have htext := owned_keep hlooked (e := ⟨.getString attrObj, attr⟩) rfl rfl
  match attr with
  | none => exact put_spec (r := (-4, none)) hobj hsince htext
  | some text =>
    dsimp only
    rw [Prog.wp_bind, Prog.wp_ask]
    refine ⟨trivial, fun deviceId _ => ?_⟩
    have hdevice : (deviceId.map fun p => (p, text)).map Prod.fst = deviceId := by
      cases deviceId <;> rfl
    have hcopied : Since h [] (0 + blocks deviceId) (0 + 0) (0 + 0) _ :=
      (hsince.trans (.one ⟨.strdup text, deviceId⟩)).forget (List.nil_subset _)
    rw [zero_add, zero_add] at hcopied
    have hduplicated := owned_give htext (e := ⟨.strdup text, deviceId⟩) rfl rfl
    refine put_spec (r := (err, deviceId.map fun p => (p, text))) hobj ?_ ?_
    · rw [hdevice]
      exact hcopied
    · rw [hdevice, hduplicated]
      show blocks deviceId + (obj.roots + (blocks (some a) + (0 + m))) = _
      rw [zero_add, add_left_comm, add_left_comm (blocks deviceId)]

/-- A `realloc` failed among the calls `es`. -/
def Failed (es : List (Called Op.Ret)) : Prop := ∃ p n, ⟨.realloc p n, none⟩ ∈ es

theorem Failed.mono (h : Failed es) (hsub : es ⊆ es') : Failed es' := by
  obtain ⟨p, n, hmem⟩ := h
  exact ⟨p, n, hsub hmem⟩

theorem Unprintable.mono (h : Unprintable es) (hsub : es ⊆ es') : Unprintable es' := by
  obtain ⟨curl, url, params, chunks, hperform, hreply⟩ := h
  exact ⟨curl, url, params, chunks, hsub hperform,
    hreply.imp_right fun hfailed => Failed.mono hfailed hsub⟩

/-- The reply is a text with a NUL behind it. -/
def Written (heap : Memory) (mem : MemoryStruct) : Prop := ∃ text, HoldsText heap mem text (some 0)

/-- A callback grows the block of the reply and adds its chunk, or abandons the block. -/
theorem growReply_spec {heap : Memory} {mem : MemoryStruct} {kept : Block}
    (hholds : Holds heap mem kept) (howned : owned h = blocks mem.memory + m)
    (contents : List UInt8) :
    Prog.wp kernel (growReply heap mem contents) (fun h' r => ∃ es a ret heap' mem' kept',
      r = some (ret, heap', mem') ∧ Since h es 0 0 a h' ∧
        owned h' = blocks mem'.memory + (a + m) ∧ Holds heap' mem' kept' ∧
        (∀ text, Received heap mem text → Failed es ∨ Written heap' mem')) h := by
  unfold growReply
  rw [Prog.wp_bind, Prog.wp_ask]
  refine ⟨?_, fun memory _ => ?_⟩
  · show blocks mem.memory ≤ owned h
    rw [howned]
    exact Multiset.le_add_right _ _
  have hone := Since.one (h := h) ⟨.realloc mem.memory (mem.size + contents.length + 1), memory⟩
  obtain ⟨ret, heap', mem', kept', hcall, hmem', hholds'⟩ :=
    callback_holds hholds (arrived contents memory)
  refine ⟨_, _, ret, heap', mem', kept', hcall, hone, ?_, hholds', fun text htext => ?_⟩
  · rw [hmem']
    cases memory with
    | none =>
      rw [owned_keep howned rfl rfl]
      exact (zero_add _).symm
    | some p =>
      rw [owned_append, howned,
        show taken ⟨.realloc mem.memory (mem.size + contents.length + 1), some p⟩ =
          blocks mem.memory from rfl, add_tsub_cancel_left]
      exact congrArg _ (zero_add m).symm
  · cases memory with
    | none => exact .inl ⟨_, _, List.mem_singleton_self _⟩
    | some p =>
      obtain ⟨heap'', mem'', hcall', hwritten⟩ :=
        callback_grows (c := arrived contents (some p)) htext (Option.some_ne_none p)
      obtain ⟨-, rfl, rfl⟩ := by simpa using hcall.symm.trans hcall'
      exact .inr ⟨_, hwritten⟩

/-- A transfer does not fault, and what it received is a text unless a `realloc` failed. -/
theorem transfer_spec (chunks : List (List UInt8)) : ∀ {heap : Memory} {mem : MemoryStruct}
    {kept : Block} {h : History Op.Ret} {m : Multiset Resource}, Holds heap mem kept →
    owned h = blocks mem.memory + m →
    Prog.wp kernel (transfer heap mem chunks) (fun h' r => ∃ es a complete heap' mem',
      r = some (complete, heap', mem') ∧ Since h es 0 0 a h' ∧
        owned h' = blocks mem'.memory + (a + m) ∧
        (∀ text, Received heap mem text → (chunks = [] → Written heap mem) →
          Failed es ∨ Written heap' mem')) h := by
  induction chunks with
  | nil =>
    intro heap mem kept h m _ howned
    refine ⟨[], 0, true, heap, mem, rfl, Since.refl, ?_, fun _ _ hwritten => .inr (hwritten rfl)⟩
    rw [zero_add]
    exact howned
  | cons contents chunks ih =>
    intro heap mem kept h m hholds howned
    rw [transfer, Prog.wp_bind]
    refine Prog.wp_mono (growReply_spec hholds howned contents) ?_
    rintro h' _ ⟨es, a, ret, heap', mem', kept', rfl, hsince, howned', hholds', hgrown⟩
    dsimp only
    split
    · exact ⟨es, a, false, heap', mem', rfl, hsince, howned', fun text htext _ => hgrown text htext⟩
    refine Prog.wp_mono (ih hholds' howned') ?_
    rintro h'' r ⟨es', a', complete, heap'', mem'', rfl, hsince', howned'', hrest⟩
    refine ⟨es' ++ es, a + a', complete, heap'', mem'', rfl, hsince.trans hsince', ?_,
      fun text htext _ => ?_⟩
    · rw [howned'', add_left_comm a', add_assoc]
    · rcases hgrown text htext with hfailed | ⟨text', hwritten⟩
      · exact .inl (hfailed.mono (List.subset_append_right _ _))
      · exact (hrest text' (.inr ⟨_, hwritten⟩) fun _ => ⟨text', hwritten⟩).imp_left
          fun hfailed => hfailed.mono (List.subset_append_left _ _)

/-- The size of a member does not matter. -/
theorem writeMemoryCallback_arrived (heap : Memory) (mem : MemoryStruct) (cb : Callback) :
    writeMemoryCallback heap mem (arrived cb.contents cb.realloc) =
      writeMemoryCallback heap mem cb := by
  unfold writeMemoryCallback arrived
  rw [← cb.length_eq]
  simp only [Nat.one_mul]

/-- **The two levels agree.** A transfer in memory is a run of `transfer` with the same
outcomes of `realloc`. -/
theorem transfer_of_perform {cs : List Callback} : ∀ {heap : Memory} {mem : MemoryStruct}
    (h : History Op.Ret), ∃ h', Prog.Runs kernel h
      (transfer heap mem (cs.map Callback.contents)) h' (.ret (perform heap mem cs)) := by
  induction cs with
  | nil => exact fun h => ⟨h, .start⟩
  | cons cb cs ih =>
    intro heap mem h
    have hcall : Prog.Runs kernel h (growReply heap mem cb.contents)
        (h ++ [⟨.realloc mem.memory (mem.size + cb.contents.length + 1), cb.realloc⟩])
        (.ret (writeMemoryCallback heap mem (arrived cb.contents cb.realloc))) :=
      .call .start trivial
    rw [writeMemoryCallback_arrived] at hcall
    rw [List.map_cons, perform, ← cb.length_eq]
    cases hgrown : writeMemoryCallback heap mem cb with
    | none =>
      rw [hgrown] at hcall
      exact ⟨_, hcall.bind _⟩
    | some grown =>
      obtain ⟨ret, heap', mem'⟩ := grown
      rw [hgrown] at hcall
      have hfirst : Prog.Runs kernel h (transfer heap mem (cb.contents :: cs.map Callback.contents))
          _ (if ret < cb.contents.length then pure (some (false, heap', mem'))
            else transfer heap' mem' (cs.map Callback.contents)) := hcall.bind _
      simp only [Option.bind_eq_bind, Option.bind_some]
      split
      · rename_i hshort
        rw [if_pos hshort] at hfirst
        exact ⟨_, hfirst⟩
      · rename_i hfull
        rw [if_neg hfull] at hfirst
        obtain ⟨h', hrest⟩ := ih _
        exact ⟨h', hfirst.trans hrest⟩

/-- A text with a NUL behind it is a string. -/
theorem Written.string {heap : Memory} {mem : MemoryStruct} (h : Written heap mem) :
    (mem.memory.bind heap).bind readString ≠ none := by
  obtain ⟨text, -, b, hb, hheap⟩ := h
  rw [hb, Option.bind_some, hheap, Option.bind_some, readString_terminated]
  exact Option.some_ne_none _

/-- A handle that is owned may be used. -/
theorem handle_owned {handle : ℕ} (howned : owned h = curls (some handle) + m) :
    ∃ a, some handle = some a ∧ .curl a ∈ owned h := by
  refine ⟨handle, rfl, ?_⟩
  rw [howned]
  exact Multiset.mem_add.mpr (.inl (Multiset.mem_singleton_self _))

/-- The handle and the block of the reply are given back. -/
theorem wp_dispose {handle : ℕ} {memory : Option ℕ} (hsince : Since h es c b a h')
    (howned : owned h' = curls (some handle) + (blocks memory + m)) :
    Prog.wp kernel (do
      cleanup (some handle)
      freeCall memory
      pure (some 0)) (fun h'' (r : Option Int) => r = some 0 ∧ Since h es c b a h'' ∧
        owned h'' = m) h' := by
  rw [Prog.wp_bind, Prog.wp_ask]
  refine ⟨handle_owned howned, fun _ _ => ?_⟩
  have hcleaned := owned_take (e := ⟨.cleanup (some handle), ()⟩) howned rfl
  rw [Prog.wp_bind, Prog.wp_ask]
  refine ⟨?_, fun _ _ => ?_⟩
  · show blocks memory ≤ owned _
    rw [hcleaned]
    exact Multiset.le_add_right _ _
  have hcleanup := hsince.quiet (e := ⟨.cleanup (some handle), ()⟩) rfl rfl rfl
  exact ⟨rfl, hcleanup.quiet (e := ⟨.free memory, ()⟩) rfl rfl rfl,
    owned_take (e := ⟨.free memory, ()⟩) hcleaned rfl⟩

/-- What is left of a transfer: without a handle the block of the reply, else what was
abandoned. -/
theorem curlReport_spec (howned : owned h = m) (url : String) (params : List UInt8) :
    Prog.wp kernel (curlReport url params) (fun h' r => ∃ es b a, Since h es 0 b a h' ∧
      match r with
      | none => Unprintable es
      | some _ => ∃ curl, ⟨.easyInit, curl⟩ ∈ es ∧
          owned h' = (if curl = none then b else a) + m) h := by
  unfold curlReport
  rw [Prog.wp_bind, Prog.wp_ask]
  refine ⟨trivial, fun memory _ => ?_⟩
  have hsince : Since h [] 0 (blocks memory) 0 (h ++ [⟨.malloc 1, memory⟩]) :=
    (Since.one _).forget (List.nil_subset _)
  have hreply : owned (h ++ [⟨.malloc 1, memory⟩]) = blocks memory + m := owned_give howned rfl rfl
  rw [Prog.wp_bind, Prog.wp_ask]
  refine ⟨trivial, fun curl _ => ?_⟩
  have hnoted := hsince.note (e := ⟨.easyInit, curl⟩) rfl rfl rfl
  have hinit : owned (h ++ [⟨.malloc 1, memory⟩] ++ [⟨.easyInit, curl⟩]) =
      curls curl + (blocks memory + m) := owned_give hreply rfl rfl
  split
  · rename_i hnone
    obtain rfl : curl = none := hnone
    exact ⟨_, _, _, hnoted, none, List.mem_singleton_self _, hinit.trans (zero_add _)⟩
  rename_i hsome
  obtain ⟨handle, rfl⟩ := Option.ne_none_iff_exists'.mp hsome
  rw [Prog.wp_bind, Prog.wp_ask]
  refine ⟨Multiset.zero_le _, fun list _ => ?_⟩
  have hheaders := hnoted.trans (.one ⟨.slistAppend none "Content-type: application/json", list⟩)
  have hlisted : owned (h ++ [⟨.malloc 1, memory⟩] ++ [⟨.easyInit, some handle⟩] ++
      [⟨.slistAppend none "Content-type: application/json", list⟩]) =
        curls (some handle) + (blocks memory + (slists list + m)) := by
    have htaken : taken ⟨.slistAppend none "Content-type: application/json", list⟩ = 0 := by
      cases list <;> rfl
    rw [owned_give hinit rfl htaken]
    show slists list + _ = _
    rw [add_left_comm, add_left_comm (slists list)]
  rw [Prog.wp_bind, Prog.wp_ask]
  refine ⟨handle_owned hlisted, fun ⟨chunks, ok⟩ _ => ?_⟩
  have hperformed :=
    hheaders.note (e := ⟨.perform (some handle) url params, (chunks, ok)⟩) rfl rfl rfl
  have howned' :=
    owned_keep hlisted (e := ⟨.perform (some handle) url params, (chunks, ok)⟩) rfl rfl
  rw [add_left_comm] at howned'
  have hreceived := received_malloc (fun _ => none) memory
  have hmemory : (malloc (fun _ => none) 1 memory).2 = memory := by cases memory <;> rfl
  dsimp only
  rw [Prog.wp_bind]
  refine Prog.wp_mono (transfer_spec chunks hreceived.holds
    (howned'.trans (congrArg (blocks · + _) hmemory.symm))) ?_
  rintro h' _ ⟨es, a, complete, heap', chunk, rfl, hgrown, htransferred, hwritten⟩
  have hall := hperformed.trans hgrown
  dsimp only
  split
  · -- the reply is printed and is no string
    rename_i hprinted
    obtain ⟨hok, hprint⟩ := hprinted
    obtain ⟨-, rfl⟩ := Bool.and_eq_true_iff.mp hok
    refine ⟨_, _, _, hall, some handle, url, params, chunks, ?_, ?_⟩
    · simp
    · by_contra hneither
      rw [not_or] at hneither
      rcases hwritten [] hreceived fun hnil => absurd hnil hneither.1 with hfailed | htext
      · exact hneither.2 (hfailed.mono (List.subset_append_left _ _))
      · exact htext.string hprint
  rw [add_left_comm a, add_left_comm (blocks chunk.memory)] at htransferred
  refine Prog.wp_mono (wp_dispose hall htransferred) ?_
  rintro h'' _ ⟨rfl, hsince', howned'⟩
  refine ⟨_, _, _, hsince', some handle, by simp, ?_⟩
  rw [howned', if_neg (Option.some_ne_none handle)]
  show a + (slists list + m) = 0 + slists list + a + m
  rw [zero_add, add_left_comm, add_assoc]

/-- A string is given away as soon as it is made. -/
theorem wp_addString {α : Type} {para : ℕ} {key : String} {text : List UInt8} {p : Prog Op.Ret α}
    {Q : History Op.Ret → α → Prop} (hsince : Since h es c b a h') (howned : owned h' = m)
    (hpara : .json para ∈ m)
    (hnext : ∀ h'', Since h es c b a h'' → owned h'' = m → Prog.wp kernel p Q h'') :
    Prog.wp kernel (do addString (.root para) key text; p) Q h' := by
  unfold addString
  rw [Prog.wp_bind, Prog.wp_bind, Prog.wp_ask]
  refine ⟨trivial, fun val hval => ?_⟩
  have hmade : owned (h' ++ [⟨.newString text, val⟩]) = val.roots + m := owned_give howned rfl rfl
  refine ⟨⟨?_, hval, ?_⟩, fun _ _ => hnext _ ?_ (owned_take hmade rfl)⟩
  · show _ ∈ owned _
    rw [hmade]
    exact Multiset.mem_add.mpr (.inr hpara)
  · show {Resource.json para} + val.roots ≤ owned _
    rw [hmade, add_comm]
    exact add_le_add le_rfl (Multiset.singleton_le.mpr hpara)
  · exact (hsince.quiet rfl rfl rfl).quiet rfl rfl rfl

/-- What a report with the three containers leaves: its object, and what the transfer
left. It faults if there is no device id, or on its reply. -/
theorem fillReport_spec {infor para array : ℕ} {device : Option (ℕ × List UInt8)}
    (howned : owned h = {.json array} + ({.json para} + ({.json infor} +
      (blocks (device.map Prod.fst) + m)))) (voiceVer macAddr keyName time : List UInt8) :
    Prog.wp kernel (fillReport (.root infor) (.root para) (.root array) device voiceVer macAddr
      keyName time) (fun h' r => ∃ es b a, Since h es 0 b a h' ∧ match r with
        | none => device = none ∨ Unprintable es
        | some () => device ≠ none ∧ ∃ curl, ⟨.easyInit, curl⟩ ∈ es ∧
            owned h' = .json infor ::ₘ (if curl = none then b else a) + m) h := by
  have hpara : .json para ∈ ({.json array} + ({.json para} + ({.json infor} +
      (blocks (device.map Prod.fst) + m))) : Multiset Resource) := by simp
  unfold fillReport
  refine wp_addString Since.refl howned hpara fun h₁ hsince₁ howned₁ => ?_
  refine wp_addString hsince₁ howned₁ hpara fun h₂ hsince₂ howned₂ => ?_
  match device with
  | none => exact ⟨_, _, _, hsince₂, .inl rfl⟩
  | some (deviceId, deviceText) =>
    refine wp_addString hsince₂ howned₂ hpara fun h₃ hsince₃ howned₃ => ?_
    refine wp_addString hsince₃ howned₃ hpara fun h₄ hsince₄ howned₄ => ?_
    refine wp_addString hsince₄ howned₄ hpara fun h₅ hsince₅ howned₅ => ?_
    refine wp_addString hsince₅ howned₅ hpara fun h₆ hsince₆ howned₆ => ?_
    rw [Prog.wp_bind, Prog.wp_ask]
    refine ⟨⟨?_, .inr ⟨para, rfl⟩, ?_⟩, fun _ _ => ?_⟩
    · show _ ∈ owned _
      rw [howned₆]
      exact Multiset.mem_add.mpr (.inl (Multiset.mem_singleton_self _))
    · show {Resource.json array} + {Resource.json para} ≤ owned _
      rw [howned₆, ← add_assoc]
      exact Multiset.le_add_right _ _
    rw [add_left_comm] at howned₆
    have hrow := owned_take (e := ⟨.arrayAdd (.root array) (.root para), ()⟩) howned₆ rfl
    rw [Prog.wp_bind, Prog.wp_ask]
    refine ⟨⟨?_, .inr ⟨array, rfl⟩, ?_⟩, fun _ _ => ?_⟩
    · show _ ∈ owned _
      rw [hrow]
      simp
    · show {Resource.json infor} + {Resource.json array} ≤ owned _
      rw [hrow, ← add_assoc, add_comm {Resource.json infor}]
      exact Multiset.le_add_right _ _
    have hevents := owned_take (e := ⟨.objectAdd (.root infor) "events" (.root array), ()⟩) hrow rfl
    rw [add_left_comm] at hevents
    rw [Prog.wp_bind, Prog.wp_ask]
    refine ⟨?_, fun _ _ => ?_⟩
    · show blocks (some deviceId) ≤ owned _
      rw [hevents]
      exact Multiset.le_add_right _ _
    have hfreed := owned_take (e := ⟨.free (some deviceId), ()⟩) hevents rfl
    rw [Prog.wp_bind, Prog.wp_ask]
    refine ⟨?_, fun params _ => ?_⟩
    · show _ ∈ owned _
      rw [hfreed]
      exact Multiset.mem_add.mpr (.inl (Multiset.mem_singleton_self _))
    have hprinted := owned_keep hfreed (e := ⟨.toJsonString (.root infor), params⟩) rfl rfl
    have hquiet := (((hsince₆.quiet (e := ⟨.arrayAdd (.root array) (.root para), ()⟩) rfl rfl
      rfl).quiet (e := ⟨.objectAdd (.root infor) "events" (.root array), ()⟩) rfl rfl rfl).quiet
      (e := ⟨.free (some deviceId), ()⟩) rfl rfl rfl).quiet
      (e := ⟨.toJsonString (.root infor), params⟩) rfl rfl rfl
    rw [Prog.wp_bind]
    refine Prog.wp_mono (curlReport_spec hprinted directivesPath params) ?_
    rintro h' reported ⟨es, b, a, hposted, hreported⟩
    have hall := hquiet.trans hposted
    rw [zero_add, zero_add, zero_add, List.append_nil] at hall
    match reported with
    | none => exact ⟨es, b, a, hall, .inr hreported⟩
    | some ret =>
      obtain ⟨curl, hcurl, hleft⟩ := hreported
      refine ⟨es, b, a, hall, Option.some_ne_none _, curl, hcurl, ?_⟩
      rw [hleft, add_left_comm, ← add_assoc, Multiset.singleton_add]

/-- A report went on from `h`, where `m` was owned: a fault, or what it leaves is owned
as well. -/
def Reported {α : Type} (h : History Op.Ret) (m : Multiset Resource) (h' : History Op.Ret)
    (r : Option α) : Prop :=
  ∃ tr, h' = h ++ tr ∧ match r with
    | none => Faulted tr
    | some _ => ∃ left, Left tr left ∧ owned h' = left + m

/-- A container is missing. -/
theorem reported_of_null {α : Type} {r : α} (hsince : Since h es c b a h')
    (hnull : ⟨.newObject, .null⟩ ∈ es ∨ ⟨.newArray, .null⟩ ∈ es) (howned : owned h' = c + m) :
    Reported h m h' (some r) := by
  obtain ⟨tr, rfl, hes, rfl, -, -⟩ := hsince
  exact ⟨tr, rfl, _, .unmade (hnull.imp (fun he => hes he) fun he => hes he), howned⟩

theorem put_root {obj : ℕ} (howned : owned h = {.json obj} + m) :
    kernel.allowed h (.put (.root obj)) := by
  refine .inr ⟨obj, rfl, ?_⟩
  rw [howned]
  exact Multiset.mem_add.mpr (.inl (Multiset.mem_singleton_self _))

theorem buildReport_spec {device : Option (ℕ × List UInt8)}
    (hsince : Since h [] (blocks (device.map Prod.fst)) 0 0 h')
    (howned : owned h' = blocks (device.map Prod.fst) + m)
    (voiceVer macAddr keyName time : List UInt8) :
    Prog.wp kernel (buildReport device voiceVer macAddr keyName time) (Reported h m) h' := by
  unfold buildReport
  rw [Prog.wp_bind, Prog.wp_ask]
  refine ⟨trivial, fun obj hobj => ?_⟩
  have hinfor := hsince.note (e := ⟨.newObject, obj⟩) rfl rfl rfl
  have hgiven := owned_give howned (e := ⟨.newObject, obj⟩) rfl rfl
  split
  · rename_i hnull
    obtain rfl : obj = .null := hnull
    exact reported_of_null hinfor (.inl (List.mem_singleton_self _)) (hgiven.trans (zero_add _))
  rename_i hne
  obtain ⟨infor, rfl⟩ := Or.resolve_left hobj hne
  rw [Prog.wp_bind, Prog.wp_ask]
  refine ⟨trivial, fun obj' hobj' => ?_⟩
  have hpara := hinfor.note (e := ⟨.newObject, obj'⟩) rfl rfl rfl
  have hgiven' := owned_give hgiven (e := ⟨.newObject, obj'⟩) rfl rfl
  split
  · rename_i hnull
    obtain rfl : obj' = .null := hnull
    replace hgiven' := hgiven'.trans (zero_add _)
    rw [Prog.wp_bind, Prog.wp_ask]
    refine ⟨put_root hgiven', fun _ _ => reported_of_null (hpara.quiet rfl rfl rfl)
      (.inl List.mem_cons_self) (owned_take hgiven' rfl)⟩
  rename_i hne'
  obtain ⟨para, rfl⟩ := Or.resolve_left hobj' hne'
  rw [Prog.wp_bind, Prog.wp_ask]
  refine ⟨trivial, fun arr harr => ?_⟩
  have harray := hpara.note (e := ⟨.newArray, arr⟩) rfl rfl rfl
  have hgiven'' := owned_give hgiven' (e := ⟨.newArray, arr⟩) rfl rfl
  split
  · rename_i hnull
    obtain rfl : arr = .null := hnull
    replace hgiven'' := hgiven''.trans ((zero_add _).trans (add_left_comm _ _ _))
    rw [Prog.wp_bind, Prog.wp_ask]
    refine ⟨put_root hgiven'', fun _ _ => ?_⟩
    have hput := owned_take (e := ⟨.put (.root infor), ()⟩) hgiven'' rfl
    rw [Prog.wp_bind, Prog.wp_ask]
    refine ⟨put_root hput, fun _ _ => ?_⟩
    exact reported_of_null
      ((harray.quiet (e := ⟨.put (.root infor), ()⟩) rfl rfl rfl).quiet rfl rfl rfl)
      (.inr List.mem_cons_self) (owned_take hput rfl)
  rename_i hne''
  obtain ⟨array, rfl⟩ := Or.resolve_left harr hne''
  refine Prog.wp_mono (fillReport_spec hgiven'' voiceVer macAddr keyName time) ?_
  rintro h'' r ⟨es, b, a, hsince', hr⟩
  obtain ⟨tr, htr, hes, hcopied, hreplied, habandoned⟩ := harray.trans hsince'
  rw [zero_add] at hreplied habandoned
  rw [add_zero] at hcopied
  match r with
  | none =>
    refine ⟨tr, htr, ?_⟩
    rcases hr with rfl | hunprintable
    · exact .noDevice (hes (List.mem_append_right _ List.mem_cons_self)) hcopied
    · exact .unprintable (hunprintable.mono
        (List.Subset.trans (List.subset_append_left _ _) hes))
  | some () =>
    obtain ⟨hdevice, curl, hcurl, howned'⟩ := hr
    have hmade : ⟨.newObject, .root infor⟩ ∈ tr := hes (by simp)
    have hinit : ⟨.easyInit, curl⟩ ∈ tr := hes (List.mem_append_left _ hcurl)
    have hid : tally copied tr ≠ 0 := by
      obtain ⟨d, rfl⟩ := Option.ne_none_iff_exists'.mp hdevice
      rw [hcopied]
      exact Multiset.singleton_ne_zero _
    refine ⟨tr, htr, _, ?_, howned'⟩
    cases curl with
    | none =>
      rw [if_pos rfl, ← hreplied]
      exact .noHandle hmade hinit hid
    | some handle =>
      rw [if_neg (Option.some_ne_none _), ← habandoned]
      exact .posted hmade hinit hid

/-- The time fits in `cur_time`, which stays as long as it is. -/
theorem getCurTime_inRange {curTime : List UInt8} (hlen : curTime.length = 32) {p : Tm}
    (hp : InRange p) : ∃ curTime', getCurTime curTime p = some curTime' ∧
      cstringAt curTime' = some (text p) ∧ curTime'.length = 32 := by
  obtain ⟨curTime', hprinted, htext⟩ := Option.bind_eq_some_iff.mp (cstringAt_getCurTime hp hlen)
  refine ⟨curTime', hprinted, htext, ?_⟩
  unfold getCurTime at hprinted
  obtain ⟨year, -, hprinted⟩ := Option.bind_eq_some_iff.mp hprinted
  obtain ⟨month, -, hprinted⟩ := Option.bind_eq_some_iff.mp hprinted
  exact (store_length hprinted).trans hlen

/-- From `get_duercfg` on, after calls that gave and took nothing. -/
theorem reportKeyFrom_spec {curTime : List UInt8} (hlen : curTime.length = 32)
    (hbefore : Since h [] 0 0 0 h') (howned : owned h' = m)
    (keyName voiceVer macAddr : List UInt8) :
    Prog.wp kernel (reportKeyFrom curTime keyName voiceVer macAddr) (fun h' r =>
      Reported h m h' r ∧ ∀ curTime' ∈ r, curTime'.length = 32) h' := by
  unfold reportKeyFrom
  rw [Prog.wp_bind]
  refine Prog.wp_mono (getDuercfg_spec howned "device_id") ?_
  rintro h'' ⟨err, device⟩ ⟨hsince, hconfigured⟩
  dsimp only
  rw [Prog.wp_bind, Prog.wp_ask]
  refine ⟨trivial, fun p hp => ?_⟩
  replace hsince := (hbefore.trans hsince).quiet (e := ⟨.localtime, p⟩) rfl rfl rfl
  rw [zero_add, zero_add] at hsince
  have htold := owned_keep hconfigured (e := ⟨.localtime, p⟩) rfl rfl
  obtain ⟨curTime', hprinted, htext, hlen'⟩ := getCurTime_inRange hlen hp
  rw [hprinted]
  dsimp only
  rw [htext]
  dsimp only
  rw [Prog.wp_bind]
  refine Prog.wp_mono (buildReport_spec hsince htold voiceVer macAddr keyName (text p)) ?_
  rintro h₃ r ⟨tr, htr, hr⟩
  cases r with
  | none => exact ⟨⟨tr, htr, hr⟩, fun _ hmem => absurd hmem (Option.not_mem_none _)⟩
  | some =>
    refine ⟨⟨tr, htr, hr⟩, fun c hc => ?_⟩
    obtain rfl := Option.some.inj hc
    exact hlen'

/-- `cdb_get` writes to an array; a string that the array has no room for is a fault. -/
theorem wp_cdbGet {α : Type} {key : String} {room : ℕ} (harray : (key, room) ∈ arrays)
    {next : List UInt8 → Prog Op.Ret (Option α)} {Q : History Op.Ret → Option α → Prop}
    (hsince : Since h [] 0 0 0 h') (howned : owned h' = m)
    (hfault : ∀ tr, Faulted tr → Q (h ++ tr) none)
    (hnext : ∀ h'' text, Since h [] 0 0 0 h'' → owned h'' = m → Prog.wp kernel (next text) Q h'') :
    Prog.wp kernel (do
      let text ← cdbGet key
      if room ≤ text.length then pure none else next text) Q h' := by
  rw [Prog.wp_bind, Prog.wp_ask]
  refine ⟨trivial, fun text _ => ?_⟩
  split
  · rename_i hlong
    obtain ⟨tr, htr, hmem, -⟩ := hsince.note (e := ⟨.cdbGet key, text⟩) rfl rfl rfl
    rw [htr]
    exact hfault tr (.overflow harray (hmem (List.mem_singleton_self _)) hlong)
  · exact hnext _ text (hsince.quiet rfl rfl rfl) (owned_keep howned rfl rfl)

theorem reportKey_spec {curTime : List UInt8} (hlen : curTime.length = 32) (howned : owned h = m)
    (keyName : List UInt8) :
    Prog.wp kernel (reportKey curTime keyName) (fun h' r => Reported h m h' r ∧
      ∀ curTime' ∈ r, curTime'.length = 32) h := by
  have hfault : ∀ tr, Faulted tr → Reported h m (h ++ tr) (none : Option (List UInt8)) ∧
      ∀ curTime' ∈ (none : Option (List UInt8)), curTime'.length = 32 :=
    fun tr htr => ⟨⟨tr, rfl, htr⟩, fun _ hmem => absurd hmem (Option.not_mem_none _)⟩
  unfold reportKey
  refine wp_cdbGet (by decide) Since.refl howned hfault fun h₁ _ hsince₁ howned₁ => ?_
  refine wp_cdbGet (by decide) hsince₁ howned₁ hfault fun h₂ voiceVer hsince₂ howned₂ => ?_
  refine wp_cdbGet (by decide) hsince₂ howned₂ hfault fun h₃ macAddr hsince₃ howned₃ => ?_
  exact reportKeyFrom_spec hlen hsince₃ howned₃ keyName voiceVer macAddr

-- ---------------------------------------------------------------------------
-- Sessions
-- ---------------------------------------------------------------------------

/-- The reports for some keys that came to their end: their calls, and what each of
them leaves owned. -/
def Reports (keys : List (List UInt8)) (h : History Op.Ret) : Prop :=
  ∃ reports : List (History Op.Ret × Multiset Resource), reports.length = keys.length ∧
    h = (reports.map Prod.fst).flatten ∧ (∀ report ∈ reports, Left report.1 report.2) ∧
    owned h = (reports.map Prod.snd).sum

/-- Where a session is after the reports for `keys`; after a fault, with the report it
was in and those before it. -/
def Progressed (keys : List (List UInt8)) (state : Option (List UInt8)) (h : History Op.Ret) :
    Prop :=
  match state with
  | none => ∃ past key rest, keys = past ++ key :: rest ∧
      ∃ h₀ tr, h = h₀ ++ tr ∧ Reports past h₀ ∧ Faulted tr
  | some curTime => curTime.length = 32 ∧ Reports keys h

theorem session_spec (keys : List (List UInt8)) :
    Prog.wp kernel (session keys) (fun h state => Progressed keys state h) [] := by
  have hstart : Progressed [] (some (List.replicate 32 0)) [] :=
    ⟨List.length_replicate, [], rfl, rfl, fun _ h => absurd h List.not_mem_nil, rfl⟩
  refine Prog.wp_foldlM (I := Progressed) ?_ keys hstart
  intro done key state h hI
  match state with
  | none =>
    obtain ⟨past, key', rest, rfl, hfault⟩ := hI
    exact ⟨past, key', rest ++ [key], by simp, hfault⟩
  | some curTime =>
    obtain ⟨hlen, hreports⟩ := hI
    refine Prog.wp_mono (reportKey_spec hlen rfl key) ?_
    rintro h' r ⟨⟨tr, rfl, hr⟩, hlen'⟩
    match r with
    | none => exact ⟨done, key, [], rfl, h, tr, rfl, hreports, hr⟩
    | some curTime' =>
      obtain ⟨left, hleft', howned'⟩ := hr
      obtain ⟨reports, hcount, rfl, hleft, howned⟩ := hreports
      refine ⟨hlen' curTime' rfl, reports ++ [(tr, left)], ?_, ?_, ?_, ?_⟩
      · rw [List.length_append, List.length_append, hcount]
        rfl
      · rw [List.map_append, List.flatten_append, List.map_singleton, List.flatten_singleton]
      · intro report hreport
        rcases List.mem_append.mp hreport with hold | hnew
        · exact hleft report hold
        · rw [List.mem_singleton.mp hnew]
          exact hleft'
      · rw [howned', howned, List.map_append, List.sum_append, add_comm left]
        exact congrArg _ (add_zero left).symm

end Uartd.Report
