import Presteramgr.Mll.Table
import Presteramgr.Ret.Mcre

/-!
# Entries and chains

Every entry of `mcret` owns one index and one chain of the pair table, and counts the nodes of the
chain.

## Main definitions

* `McInv m P`: the entries of `mcret` own the chains `P` of the pair table.

## Main results

* `McInv.mcreCreate`, `McInv.mcreAddNode`, `McInv.mcreDelNode` and `McInv.mcrePut_created`: what
  the four operations do to the entries, the indices and the chains.
-/

namespace Presteramgr

open Function (update)

namespace Mll.MllInv

variable {m m' : Mll} {P : ℤ → List ℤ} {i : ℤ}

/-- A chain of one pair is put back by `mll_put` alone. -/
theorem putBack (hinv : MllInv m P) (hP : P i = [i]) :
    MllInv (m.mllPut i).2 (Mll.rechain P i i []) ∧ (m.mllPut i).2.mll_pt = m.mll_pt := by
  have hmem : i ∈ P i := by simp [hP]
  have hsp := hinv.sp_pos_of_mem hmem
  have hpt : (m.mllPut i).2.mll_pt = m.mll_pt := by
    unfold mllPut
    split_ifs <;> rfl
  have hfree := free_mllPut i hsp hinv.sp_le
  have hc := hinv.chain i (List.ne_nil_of_mem hmem)
  have hpath := hc.path
  rw [hP] at hpath
  refine ⟨hinv.rechain (fun hne => absurd rfl hne) (.inl rfl) (fun j _ _ => by rw [hpt])
    (fun j hj => by simp at hj) (fun j hj _ => ?_) (fun j => ?_) ?_ (mllPut_ts i) ?_, hpt⟩
  · rw [hP] at hj
    rw [hpt, List.mem_singleton.mp hj]
    exact (Linked.path_cons.mp hpath).2
  · rw [hfree, hP, List.mem_cons, List.mem_singleton]
    simp [or_comm]
  · rw [hfree]
    exact List.nodup_cons.mpr ⟨hinv.notFree i i hmem, hinv.freeNodup⟩
  · rw [mllPut_sp, mllPut_ts]
    have := hinv.sp_le
    omega

end Mll.MllInv

namespace McState

variable {m m' : McState} {P : ℤ → List ℤ} {re re' : Mcre} {key : McreKey} {mcg via vid : ℕ}

/-- Each entry owns an index in use and a chain, counts its nodes, is found from its index, and
is shown by its hardware route entry. -/
structure McInv (m : McState) (P : ℤ → List ℤ) : Prop where
  mll : m.mll.MllInv P
  unique : Keyed.Unique Mcre.key m.mcret
  idxUnique : Keyed.Unique Mcre.idx m.mcret
  headUnique : Keyed.Unique Mcre.mll_idx m.mcret
  chain : ∀ re ∈ m.mcret, P re.mll_idx ≠ []
  owner : ∀ h, P h ≠ [] → ∃ re ∈ m.mcret, re.mll_idx = h
  refc : ∀ re ∈ m.mcret, re.refc = Multiset.card (m.mll.chainNodes (P re.mll_idx))
  bp : ∀ re ∈ m.mcret, m.mcre_key_bp re.idx = re.key
  route : ∀ re ∈ m.mcret, m.mcRoute re.idx = ⟨re.key.src_vid, re.mll_idx⟩
  used : ∀ re ∈ m.mcret, re.idx ∈ m.ret_indexes_used
  usedNodup : m.ret_indexes_used.Nodup

/-- The nodes of an entry. -/
def nodes (m : McState) (P : ℤ → List ℤ) (re : Mcre) : Multiset MllNode :=
  m.mll.chainNodes (P re.mll_idx)

/-- The entries, their indices and their chains are as they were. -/
structure Untouched (m m' : McState) (P : ℤ → List ℤ) : Prop where
  mcret : m'.mcret = m.mcret
  used : m'.ret_indexes_used = m.ret_indexes_used
  mll : m'.mll.MllInv P
  pt : ∀ h, ∀ j ∈ P h, m'.mll.mll_pt j = m.mll.mll_pt j
  bp : ∀ re ∈ m.mcret, m'.mcre_key_bp re.idx = m.mcre_key_bp re.idx
  route : ∀ re ∈ m.mcret, m'.mcRoute re.idx = m.mcRoute re.idx

namespace Untouched

variable (hu : Untouched m m' P)

include hu

/-- The nodes of every entry are as they were. -/
theorem nodes : m'.nodes P re = m.nodes P re := Mll.chainNodes_congr (hu.pt re.mll_idx)

/-- The invariant is kept: it names only what has not changed. -/
theorem mcInv (hinv : McInv m P) : McInv m' P := by
  obtain ⟨hmcret, hused, hmll, hpt, hbp, hroute⟩ := hu
  refine ⟨hmll, hmcret ▸ hinv.unique, hmcret ▸ hinv.idxUnique, hmcret ▸ hinv.headUnique,
    hmcret ▸ hinv.chain, hmcret ▸ hinv.owner, fun re hre => ?_, fun re hre => ?_, fun re hre => ?_,
    fun re hre => ?_, hused ▸ hinv.usedNodup⟩
  all_goals rw [hmcret] at hre
  · rw [Mll.chainNodes_congr (hpt re.mll_idx)]
    exact hinv.refc re hre
  · rw [hbp re hre]
    exact hinv.bp re hre
  · rw [hroute re hre]
    exact hinv.route re hre
  · rw [hused]
    exact hinv.used re hre

end Untouched

namespace McInv

variable (hinv : McInv m P)

include hinv

/-- The hash table finds an entry by its key, which it holds once. -/
theorem hashFind_eq_some_iff : m.hashFind key = some re ↔ re ∈ m.mcret ∧ re.key = key :=
  hinv.unique.find_eq_some_iff

/-- An entry that is kept is used by at least one node. -/
theorem refc_pos (hre : re ∈ m.mcret) : 0 < re.refc := by
  rw [hinv.refc re hre]
  obtain ⟨i, l, hl⟩ := List.exists_cons_of_ne_nil (hinv.chain re hre)
  rw [hl, Mll.chainNodes_cons]
  simp only [Mll.pairNodes, Multiset.card_add, Multiset.coe_card, List.length_cons]
  omega

/-- Two entries own different chains. -/
theorem head_ne (hre : re ∈ m.mcret) (hre' : re' ∈ m.mcret) (hne : re'.key ≠ re.key) :
    re'.mll_idx ≠ re.mll_idx := fun heq =>
  hne (congrArg Mcre.key (hinv.headUnique.eq_of_mem hre' hre heq))

/-- Two entries have different indices. -/
theorem idx_ne (hre : re ∈ m.mcret) (hre' : re' ∈ m.mcret) (hne : re'.key ≠ re.key) :
    re'.idx ≠ re.idx := fun heq =>
  hne (congrArg Mcre.key (hinv.idxUnique.eq_of_mem hre' hre heq))

end McInv

/-- The entry `re` has become `re'`, with the same key and index, and its chain `l'`. -/
structure Replaced (m m' : McState) (P : ℤ → List ℤ) (re re' : Mcre) (l' : List ℤ) : Prop where
  mcret : m'.mcret = re' :: Keyed.del Mcre.key m.mcret re.key
  used : m'.ret_indexes_used = m.ret_indexes_used
  bp : m'.mcre_key_bp = m.mcre_key_bp
  key : re'.key = re.key
  idx : re'.idx = re.idx
  ne : l' ≠ []
  refc : re'.refc = Multiset.card (m'.mll.chainNodes l')
  self : m'.mcRoute re.idx = ⟨re.key.src_vid, re'.mll_idx⟩
  route : ∀ i, i ≠ re.idx → m'.mcRoute i = m.mcRoute i
  mll : m'.mll.MllInv (Mll.rechain P re.mll_idx re'.mll_idx l')
  keep : ∀ x, x ≠ re.mll_idx → ∀ j ∈ P x, m'.mll.mll_pt j = m.mll.mll_pt j
  fresh : re'.mll_idx ≠ re.mll_idx → P re'.mll_idx = []

namespace Replaced

variable {l' : List ℤ} (hr : Replaced m m' P re re' l') (hinv : McInv m P) (hre : re ∈ m.mcret)

include hr hinv hre

omit hre in
/-- The entries are the new one and the others. -/
theorem mem_iff {r : Mcre} : r ∈ m'.mcret ↔ r = re' ∨ r ∈ m.mcret ∧ r.key ≠ re.key := by
  rw [hr.mcret, List.mem_cons, hinv.unique.mem_del_iff]

/-- The chains of the other entries have stayed. -/
theorem rechain_other {r : Mcre} (hr' : r ∈ m.mcret) (hne : r.key ≠ re.key) :
    Mll.rechain P re.mll_idx re'.mll_idx l' r.mll_idx = P r.mll_idx := by
  have hhead := hinv.head_ne hre hr' hne
  rw [Mll.rechain_apply, if_neg, if_neg hhead]
  intro heq
  by_cases hsame : re'.mll_idx = re.mll_idx
  · exact hhead (heq.trans hsame)
  · exact hinv.chain r hr' (heq ▸ hr.fresh hsame)

/-- The nodes of the other entries are as they were. -/
theorem nodes_other {r : Mcre} (hr' : r ∈ m.mcret) (hne : r.key ≠ re.key) :
    m'.nodes (Mll.rechain P re.mll_idx re'.mll_idx l') r = m.nodes P r := by
  unfold McState.nodes
  rw [hr.rechain_other hinv hre hr' hne]
  exact Mll.chainNodes_congr (hr.keep r.mll_idx (hinv.head_ne hre hr' hne))

omit hr hinv hre in
/-- The changed entry owns its new chain. -/
theorem rechain_self : Mll.rechain P re.mll_idx re'.mll_idx l' re'.mll_idx = l' := by
  rw [Mll.rechain_apply, if_pos rfl]

/-- The invariant is kept when an entry and its chain change together. -/
theorem mcInv : McInv m' (Mll.rechain P re.mll_idx re'.mll_idx l') := by
  have hmem := fun r => (hr.mem_iff hinv (r := r)).mp
  have hother : ∀ {r}, r ∈ Keyed.del Mcre.key m.mcret re.key → r ∈ m.mcret ∧ r.key ≠ re.key :=
    hinv.unique.mem_del_iff.mp
  -- field by field of the invariant; the entry keeps its key and its index
  refine ⟨hr.mll, ?_, ?_, ?_, fun r hr' => ?_, fun h hh => ?_, fun r hr' => ?_, fun r hr' => ?_,
    fun r hr' => ?_, fun r hr' => ?_, hr.used ▸ hinv.usedNodup⟩
  · rw [hr.mcret]
    exact hinv.unique.del.cons fun r hr' => by rw [hr.key]; exact (hother hr').2
  · rw [hr.mcret]
    refine Keyed.unique_cons.mpr ⟨fun r hr' => ?_, ?_⟩
    · rw [hr.idx]
      exact hinv.idx_ne hre (hother hr').1 (hother hr').2
    · exact hinv.idxUnique.sublist (List.Sublist.map _ List.eraseP_sublist)
  · rw [hr.mcret]
    refine Keyed.unique_cons.mpr ⟨fun r hr' heq => ?_, ?_⟩
    · have hself := hr.rechain_other hinv hre (hother hr').1 (hother hr').2
      have hhead := hinv.head_ne hre (hother hr').1 (hother hr').2
      by_cases hsame : re'.mll_idx = re.mll_idx
      · exact hhead (heq.trans hsame)
      · exact hinv.chain r (hother hr').1 (heq ▸ hr.fresh hsame)
    · exact hinv.headUnique.sublist (List.Sublist.map _ List.eraseP_sublist)
  · rcases hmem r hr' with rfl | ⟨hr', hne⟩
    · rw [rechain_self]
      exact hr.ne
    · rw [hr.rechain_other hinv hre hr' hne]
      exact hinv.chain r hr'
  · -- a chain belongs to the entry that has its head
    rw [Mll.rechain_apply] at hh
    split_ifs at hh with hh' hhr
    · exact ⟨re', (hr.mem_iff hinv).mpr (.inl rfl), hh'.symm⟩
    · exact absurd rfl hh
    · obtain ⟨r, hr', rfl⟩ := hinv.owner h hh
      refine ⟨r, (hr.mem_iff hinv).mpr (.inr ⟨hr', fun hkey => hhr ?_⟩), rfl⟩
      rw [hinv.unique.eq_of_mem hr' hre hkey]
  · rcases hmem r hr' with rfl | ⟨hr', hne⟩
    · rw [rechain_self]
      exact hr.refc
    · have hnodes := hr.nodes_other hinv hre hr' hne
      unfold McState.nodes at hnodes
      rw [hnodes]
      exact hinv.refc r hr'
  · rw [hr.bp]
    rcases hmem r hr' with rfl | ⟨hr', -⟩
    · rw [hr.idx, hr.key]
      exact hinv.bp re hre
    · exact hinv.bp r hr'
  · rcases hmem r hr' with rfl | ⟨hr', hne⟩
    · rw [hr.idx, hr.self, hr.key]
    · rw [hr.route r.idx (hinv.idx_ne hre hr' hne)]
      exact hinv.route r hr'
  · rw [hr.used]
    rcases hmem r hr' with rfl | ⟨hr', -⟩
    · rw [hr.idx]
      exact hinv.used re hre
    · exact hinv.used r hr'

end Replaced

/-- The entry `re`, its index and its chain are gone. -/
structure Removed (m m' : McState) (P : ℤ → List ℤ) (re : Mcre) (h' : ℤ) : Prop where
  mcret : m'.mcret = Keyed.del Mcre.key m.mcret re.key
  used : m'.ret_indexes_used = m.ret_indexes_used.erase re.idx
  bp : m'.mcre_key_bp = m.mcre_key_bp
  route : m'.mcRoute = m.mcRoute
  mll : m'.mll.MllInv (Mll.rechain P re.mll_idx h' [])
  keep : ∀ x, x ≠ re.mll_idx → ∀ j ∈ P x, m'.mll.mll_pt j = m.mll.mll_pt j
  fresh : h' ≠ re.mll_idx → P h' = []

namespace Removed

variable {h' : ℤ} (hr : Removed m m' P re h') (hinv : McInv m P) (hre : re ∈ m.mcret)

include hr hinv

/-- The entries are the others. -/
theorem mem_iff {r : Mcre} : r ∈ m'.mcret ↔ r ∈ m.mcret ∧ r.key ≠ re.key := by
  rw [hr.mcret, hinv.unique.mem_del_iff]

include hre

/-- The chains of the other entries are theirs still. -/
theorem rechain_other {r : Mcre} (hr' : r ∈ m.mcret) (hne : r.key ≠ re.key) :
    Mll.rechain P re.mll_idx h' [] r.mll_idx = P r.mll_idx := by
  have hhead := hinv.head_ne hre hr' hne
  rw [Mll.rechain_apply, if_neg, if_neg hhead]
  intro heq
  by_cases hsame : h' = re.mll_idx
  · exact hhead (heq.trans hsame)
  · exact hinv.chain r hr' (heq ▸ hr.fresh hsame)

/-- The nodes of the other entries are as they were. -/
theorem nodes_other {r : Mcre} (hr' : r ∈ m.mcret) (hne : r.key ≠ re.key) :
    m'.nodes (Mll.rechain P re.mll_idx h' []) r = m.nodes P r := by
  unfold McState.nodes
  rw [hr.rechain_other hinv hre hr' hne]
  exact Mll.chainNodes_congr (hr.keep r.mll_idx (hinv.head_ne hre hr' hne))

/-- The invariant is kept when an entry goes with its chain. -/
theorem mcInv : McInv m' (Mll.rechain P re.mll_idx h' []) := by
  have hmem := fun r => (hr.mem_iff hinv (r := r)).mp
  have hsub : m'.mcret.Sublist m.mcret := by
    rw [hr.mcret]
    exact List.eraseP_sublist
  refine ⟨hr.mll, hinv.unique.sublist (hsub.map _), hinv.idxUnique.sublist (hsub.map _),
    hinv.headUnique.sublist (hsub.map _), fun r hr' => ?_, fun h hh => ?_, fun r hr' => ?_,
    fun r hr' => ?_, fun r hr' => ?_, fun r hr' => ?_, ?_⟩
  · obtain ⟨hr', hne⟩ := hmem r hr'
    rw [hr.rechain_other hinv hre hr' hne]
    exact hinv.chain r hr'
  · rw [Mll.rechain_apply] at hh
    split_ifs at hh with hh' hhr
    · exact absurd rfl hh
    · exact absurd rfl hh
    · obtain ⟨r, hr', rfl⟩ := hinv.owner h hh
      refine ⟨r, (hr.mem_iff hinv).mpr ⟨hr', fun hkey => hhr ?_⟩, rfl⟩
      rw [hinv.unique.eq_of_mem hr' hre hkey]
  · obtain ⟨hr', hne⟩ := hmem r hr'
    have hnodes := hr.nodes_other hinv hre hr' hne
    unfold McState.nodes at hnodes
    rw [hnodes]
    exact hinv.refc r hr'
  · rw [hr.bp]
    exact hinv.bp r (hmem r hr').1
  · rw [hr.route]
    exact hinv.route r (hmem r hr').1
  · obtain ⟨hr', hne⟩ := hmem r hr'
    rw [hr.used, hinv.usedNodup.mem_erase_iff]
    exact ⟨hinv.idx_ne hre hr' hne, hinv.used r hr'⟩
  · rw [hr.used]
    exact hinv.usedNodup.erase _

end Removed

/-- The entry `re` is new, with a new index and a chain of one node. -/
structure Added (m m' : McState) (P : ℤ → List ℤ) (re : Mcre) (n : MllNode) : Prop where
  mcret : m'.mcret = re :: m.mcret
  used : m'.ret_indexes_used = m.ret_indexes_used ++ [re.idx]
  idx : re.idx ∉ m.ret_indexes_used
  regular : FIRST_REGULAR_RE_IDX ≤ re.idx ∧ re.idx < 4096
  refc : re.refc = 1
  bp : m'.mcre_key_bp = update m.mcre_key_bp re.idx re.key
  route : m'.mcRoute = update m.mcRoute re.idx ⟨re.key.src_vid, re.mll_idx⟩
  fresh : P re.mll_idx = []
  mll : m'.mll.MllInv (Mll.rechain P re.mll_idx re.mll_idx [re.mll_idx])
  keep : ∀ x, ∀ j ∈ P x, m'.mll.mll_pt j = m.mll.mll_pt j
  nodes : m'.mll.chainNodes [re.mll_idx] = {n}

namespace Added

variable {n : MllNode} (ha : Added m m' P re n) (hinv : McInv m P)

include ha hinv

/-- The new entry has a chain of its own. -/
theorem head_ne {r : Mcre} (hr' : r ∈ m.mcret) : r.mll_idx ≠ re.mll_idx := fun heq =>
  hinv.chain r hr' (heq ▸ ha.fresh)

/-- The new entry has an index of its own. -/
theorem idx_ne {r : Mcre} (hr' : r ∈ m.mcret) : r.idx ≠ re.idx := fun heq =>
  ha.idx (heq ▸ hinv.used r hr')

/-- The chains of the other entries are theirs still. -/
theorem rechain_other {r : Mcre} (hr' : r ∈ m.mcret) :
    Mll.rechain P re.mll_idx re.mll_idx [re.mll_idx] r.mll_idx = P r.mll_idx := by
  rw [Mll.rechain_apply, if_neg (ha.head_ne hinv hr'), if_neg (ha.head_ne hinv hr')]

/-- The nodes of the other entries are as they were. -/
theorem nodes_other {r : Mcre} (hr' : r ∈ m.mcret) :
    m'.nodes (Mll.rechain P re.mll_idx re.mll_idx [re.mll_idx]) r = m.nodes P r := by
  unfold McState.nodes
  rw [ha.rechain_other hinv hr']
  exact Mll.chainNodes_congr (ha.keep r.mll_idx)

omit hinv in
/-- The new entry has the one node it was made for. -/
theorem nodes_self : m'.nodes (Mll.rechain P re.mll_idx re.mll_idx [re.mll_idx]) re = {n} := by
  unfold McState.nodes
  rw [Mll.rechain_apply, if_pos rfl]
  exact ha.nodes

/-- The invariant is kept when an entry is made for a key that had none. -/
theorem mcInv (hkey : ∀ r ∈ m.mcret, r.key ≠ re.key) :
    McInv m' (Mll.rechain P re.mll_idx re.mll_idx [re.mll_idx]) := by
  have hmem : ∀ r, r ∈ m'.mcret → r = re ∨ r ∈ m.mcret := fun r hr => by
    rw [ha.mcret] at hr
    exact List.mem_cons.mp hr
  -- field by field of the invariant; the new entry has an index and a chain of its own
  refine ⟨ha.mll, ?_, ?_, ?_, fun r hr => ?_, fun h hh => ?_, fun r hr => ?_, fun r hr => ?_,
    fun r hr => ?_, fun r hr => ?_, ?_⟩
  · rw [ha.mcret]
    exact hinv.unique.cons hkey
  · rw [ha.mcret]
    exact hinv.idxUnique.cons fun r hr => ha.idx_ne hinv hr
  · rw [ha.mcret]
    exact hinv.headUnique.cons fun r hr => ha.head_ne hinv hr
  · rcases hmem r hr with rfl | hr
    · rw [Mll.rechain_apply, if_pos rfl]
      simp
    · rw [ha.rechain_other hinv hr]
      exact hinv.chain r hr
  · rw [Mll.rechain_apply] at hh
    split_ifs at hh with hh'
    · exact ⟨re, by rw [ha.mcret]; exact List.mem_cons_self, hh'.symm⟩
    · obtain ⟨r, hr, rfl⟩ := hinv.owner h hh
      exact ⟨r, by rw [ha.mcret]; exact List.mem_cons_of_mem _ hr, rfl⟩
  · rcases hmem r hr with rfl | hr
    · have hself := ha.nodes_self
      unfold McState.nodes at hself
      rw [hself, ha.refc]
      rfl
    · have hother := ha.nodes_other hinv hr
      unfold McState.nodes at hother
      rw [hother]
      exact hinv.refc r hr
  · rw [ha.bp]
    rcases hmem r hr with rfl | hr
    · rw [Function.update_self]
    · rw [Function.update_of_ne (ha.idx_ne hinv hr)]
      exact hinv.bp r hr
  · rw [ha.route]
    rcases hmem r hr with rfl | hr
    · rw [Function.update_self]
    · rw [Function.update_of_ne (ha.idx_ne hinv hr)]
      exact hinv.route r hr
  · rw [ha.used, List.mem_append]
    rcases hmem r hr with rfl | hr
    · exact .inr List.mem_cons_self
    · exact .inl (hinv.used r hr)
  · rw [ha.used]
    exact List.nodup_append.mpr ⟨hinv.usedNodup, List.nodup_singleton _, fun i hi j hj heq => by
      rw [List.mem_singleton.mp hj] at heq
      exact ha.idx (heq ▸ hi)⟩

end Added

/-! ### The operations -/

/-- Giving one index back takes it off the list of used ones. -/
private theorem resPush_singleton (used : List ℤ) (i : ℤ) :
    Ret.resPush used 1 [i] = used.erase i := rfl

/-- An index that was taken last comes off the list again. -/
private theorem erase_append_singleton {used : List ℤ} {i : ℤ} (hi : i ∉ used) :
    (used ++ [i]).erase i = used := by
  rw [List.erase_append_right _ hi]
  simp

namespace McInv

variable (hinv : McInv m P)

include hinv

/-- `mcre_create` fails and leaves everything as it was, or adds an entry. -/
theorem mcreCreate (key : McreKey) (mcg : ℕ) (hvid : vid ≠ 0) (wrOk reOk : Bool) :
    (∃ m', m.mcreCreate key mcg vid wrOk reOk = some (-1, m') ∧ Untouched m m' P) ∨
      ∃ m' re, m.mcreCreate key mcg vid wrOk reOk = some (re.idx, m') ∧ re.key = key ∧
        Added m m' P re (mcg, vid) := by
  unfold McState.mcreCreate mcreNew
  rcases hpop : Ret.resPop m.ret_indexes_used 1 with _ | ⟨ids, used⟩
  · exact .inl ⟨m, rfl, rfl, rfl, hinv.mll, fun _ _ _ => rfl, fun _ _ => rfl, fun _ _ => rfl⟩
  obtain ⟨-, -, rfl, idx, rfl, hreg, hlt, hnot⟩ := Ret.resPop_spec hpop
  have hids : Ret.idxRun idx (1 : ℤ).toNat = [idx] := by simp [Ret.idxRun]
  rw [hids] at hnot ⊢
  have hidx : idx ∉ m.ret_indexes_used := hnot idx (by simp)
  have hneg : -idx < 0 := by
    rw [FIRST_REGULAR_RE_IDX] at hreg
    omega
  simp only [List.headI_cons, resPush_singleton, erase_append_singleton hidx]
  rcases hinv.mll.newChain mcg hneg hvid wrOk with heq | ⟨i, mll, heq, h0, hnil, hr, hnodes⟩
  · refine .inl ⟨_, ?_, rfl, rfl, hinv.mll, fun _ _ _ => rfl, fun _ _ => rfl, fun _ _ => rfl⟩
    simp only [heq, Option.map_some, if_true]
  · have hi : i ≠ -1 := by omega
    simp only [heq, Option.map_some, if_neg hi]
    have hkeep : ∀ x, ∀ j ∈ P x, mll.mll_pt j = m.mll.mll_pt j := fun x j hj =>
      hr.keep x (by rintro rfl; simp [hnil] at hj) j hj
    cases reOk with
    | false =>
      obtain ⟨hback, hpt⟩ := hr.inv.putBack (i := i) (by rw [Mll.rechain_apply, if_pos rfl])
      have hP : Mll.rechain (Mll.rechain P i i [i]) i i [] = P := by
        funext x
        simp only [Mll.rechain_apply]
        split_ifs with hx
        · rw [hx, hnil]
        · rfl
      rw [hP] at hback
      refine .inl ⟨_, rfl, rfl, rfl, hback, fun x j hj => ?_, fun _ _ => rfl, fun _ _ => rfl⟩
      simp only [hpt]
      exact hkeep x j hj
    | true =>
      have hrange : idx < 4096 := by omega
      exact .inr ⟨_, ⟨key, 1, idx, i⟩, rfl, rfl, rfl, rfl, hidx, ⟨hreg, hrange⟩, rfl, rfl, rfl,
        hnil, hr.inv, hkeep, hnodes⟩

/-- `mcre_put` takes a new entry back. -/
theorem mcrePut_added {n : MllNode} (ha : Added m m' P re n)
    (hkey : ∀ r ∈ m.mcret, r.key ≠ re.key) :
    (m'.mcrePut re.key).1 = 0 ∧ Untouched m (m'.mcrePut re.key).2 P := by
  have hinv' := ha.mcInv hinv hkey
  have hfind : m'.hashFind re.key = some re :=
    hinv'.hashFind_eq_some_iff.mpr ⟨by rw [ha.mcret]; exact List.mem_cons_self, rfl⟩
  have hmod : Keyed.del Mcre.key (Keyed.modify Mcre.key m'.mcret re.key fun re =>
      { re with refc := re.refc - 1 }) re.key = m.mcret := by
    have hrest : Keyed.modify Mcre.key m.mcret re.key (fun re => { re with refc := re.refc - 1 }) =
        m.mcret := by
      refine (List.map_congr_left fun r hr => if_neg (hkey r hr)).trans (List.map_id' _)
    rw [ha.mcret, Keyed.modify, List.map_cons, if_pos rfl, Keyed.del, List.eraseP_cons]
    simp only [decide_true]
    exact hrest
  have hzero : re.refc - 1 = 0 := by rw [ha.refc]; rfl
  obtain ⟨hback, hpt⟩ := ha.mll.putBack (i := re.mll_idx) (by rw [Mll.rechain_apply, if_pos rfl])
  have hP : Mll.rechain (Mll.rechain P re.mll_idx re.mll_idx [re.mll_idx]) re.mll_idx re.mll_idx
      [] = P := by
    funext x
    simp only [Mll.rechain_apply]
    split_ifs with hx
    · rw [hx, ha.fresh]
    · rfl
  rw [hP] at hback
  have hput : m'.mcrePut re.key = (0, ({ m' with
      mcret := Keyed.modify Mcre.key m'.mcret re.key fun re => { re with refc := re.refc - 1 } } :
        McState).mcreDel { re with refc := re.refc - 1 }) := by
    simp only [mcrePut, hfind, hzero, if_true]
  rw [hput]
  refine ⟨rfl, hmod, ?_, hback, fun x j hj => ?_, fun r hr => ?_, fun r hr => ?_⟩
  · simp only [mcreDel, hashDel, resPush_singleton, ha.used, erase_append_singleton ha.idx]
  · simp only [mcreDel, hashDel, hpt]
    exact ha.keep x j hj
  · simp only [mcreDel, hashDel, ha.bp]
    exact Function.update_of_ne (ha.idx_ne hinv hr) _ _
  · simp only [mcreDel, hashDel, ha.route]
    exact Function.update_of_ne (ha.idx_ne hinv hr) _ _

/-- `mcre_add_node` appends the node to the chain of the entry. -/
theorem mcreAddNode (mcg : ℕ) (hre : re ∈ m.mcret) (hvid : vid ≠ 0) {wrOk : Bool}
    (hroom : m.mll.CompleteTail re.mll_idx → ¬m.mll.Exhausted ∧ wrOk = true) :
    ∃ m' re' l', m.mcreAddNode re.idx mcg vid wrOk = some (0, m') ∧ Replaced m m' P re re' l' ∧
      m'.mll.chainNodes l' = (mcg, vid) ::ₘ m.nodes P re := by
  have hfind : m.hashFind (m.mcre_key_bp re.idx) = some re :=
    hinv.hashFind_eq_some_iff.mpr ⟨hre, (hinv.bp re hre).symm⟩
  obtain ⟨mll, l', heq, hl', hr, hnodes⟩ := hinv.mll.appendNode (hinv.chain re hre) hvid hroom
  have hself := hinv.route re hre
  refine ⟨(({ m with mll := mll } : McState).hashDel re).hashAdd { re with refc := re.refc + 1 },
    { re with refc := re.refc + 1 }, l', ?_, ⟨rfl, rfl, rfl, rfl, rfl, hl', ?_, hself,
    fun _ _ => rfl, hr.inv, hr.keep, hr.fresh⟩, hnodes⟩
  · simp only [McState.mcreAddNode, hfind, Option.bind_some, heq, Option.map_some]
  · simp only [hashAdd, hashDel, hnodes, Multiset.card_cons, hinv.refc re hre]
    push_cast
    rfl

/-- `mcre_del_node` finds no node, or deletes the last one with the entry, or deletes one. -/
theorem mcreDelNode (via vid : ℕ) (hre : re ∈ m.mcret)
    (hnode : (via, vid) = (0, 0) → ∀ i ∈ P re.mll_idx, (m.mll.mll_pt i).svid ≠ 0)
    (hsplice : ∀ idx ∈ P re.mll_idx,
      Mll.findPair m.mll.mll_pt via vid m.mll.mll_ts re.mll_idx = some idx →
      m.mll.ReadsPred idx → m.mll.Spliced re.mll_idx idx (P re.mll_idx)) :
    (m.mcreDelNode re.idx via vid = some (re.refc, m) ∧ (via, vid) ∉ m.nodes P re) ∨
      (∃ m' h', m.mcreDelNode re.idx via vid = some (0, m') ∧ Removed m m' P re h') ∨
      ∃ m' re' l', m.mcreDelNode re.idx via vid = some (re'.refc, m') ∧
        Replaced m m' P re re' l' ∧ m.nodes P re = (via, vid) ::ₘ m'.mll.chainNodes l' := by
  have hfind : m.hashFind (m.mcre_key_bp re.idx) = some re :=
    hinv.hashFind_eq_some_iff.mpr ⟨hre, (hinv.bp re hre).symm⟩
  -- either no node is found, or one is deleted from the chain
  rcases hinv.mll.delNode (hinv.chain re hre) hnode hsplice with
    ⟨heq, hno⟩ | ⟨idx, -, -, mll, h', l', freed, heq, hd⟩
  · left
    refine ⟨?_, hno⟩
    simp only [McState.mcreDelNode, hfind, heq, Option.map_some]
    rfl
  have hr := hinv.mll.rechained_of_deleted hd
  -- it was the last one: the entry goes, and its index is given back
  by_cases hl' : l' = []
  · right; left
    subst hl'
    refine ⟨{ ({ m with mll := mll } : McState).hashDel re with
      ret_indexes_used := Ret.resPush m.ret_indexes_used 1 [re.idx] }, h', ?_, rfl, rfl, rfl, rfl,
      hr.inv, hr.keep, hr.fresh⟩
    simp only [McState.mcreDelNode, hfind, heq, Option.map_some, if_true]
    rfl
  · right; right
    have h0 := (hd.chain hl').head_nonneg
    have h2 : ¬h' = -2 := by omega
    have h3 : ¬h' = -3 := by omega
    have hcard : re.refc - 1 = Multiset.card (mll.chainNodes l') := by
      rw [hinv.refc re hre, hd.nodes, Multiset.card_cons]
      push_cast
      ring
    have hroute := hinv.route re hre
    -- the head stays, or the hardware entry gets the new one
    by_cases hh : h' = re.mll_idx
    · subst hh
      have hmll := hr.inv
      refine ⟨(({ m with mll := mll } : McState).hashDel re).hashAdd
        { re with refc := re.refc - 1 }, { re with refc := re.refc - 1 }, l', ?_, ⟨rfl, rfl, rfl,
        rfl, rfl, hl', hcard, hroute, fun _ _ => rfl, hmll, hr.keep, fun hne => absurd rfl hne⟩,
        hd.nodes⟩
      simp only [McState.mcreDelNode, hfind, heq, Option.map_some, if_neg hl', if_neg h2,
        if_neg h3, ne_eq, not_true, if_false]
    · refine ⟨(({ m with
          mll := mll
          mcRoute := update m.mcRoute re.idx
            { m.mcRoute re.idx with internalMLLPointer := h' } } : McState).hashDel re).hashAdd
          { re with refc := re.refc - 1, mll_idx := h' },
        { re with refc := re.refc - 1, mll_idx := h' }, l', ?_, ⟨rfl, rfl, rfl, rfl, rfl, hl',
        hcard, ?_, fun i hi => Function.update_of_ne hi _ _, hr.inv, hr.keep, hr.fresh⟩, hd.nodes⟩
      · simp only [McState.mcreDelNode, hfind, heq, Option.map_some, if_neg hl', if_neg h2,
          if_neg h3, ne_eq, hh, not_false_iff, if_true]
      · simp only [hashAdd, hashDel, Function.update_self, hroute]

end McInv

end McState

end Presteramgr
