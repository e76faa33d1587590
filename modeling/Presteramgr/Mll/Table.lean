import Presteramgr.Mll.Append

/-!
# The division of the pair table

How the two operations move pairs between the chains and the free stack, for a table with any
number of chains.

## Main results

* `MllInv.delNode`: what `del_node` returns and what it leaves behind;
* `MllInv.appendNode` and `MllInv.newChain`: the same for the two uses of `add_node`.
-/

namespace Presteramgr

open Function (update)
open Linked

namespace Mll

variable {m m' : Mll} {P : ℤ → List ℤ} {h h' i : ℤ} {l l' freed : List ℤ} {n : MllNode}
  {mcg vid : ℕ}

/-- The chain with head `h` replaced by the chain `l'` with head `h'`. -/
def rechain (P : ℤ → List ℤ) (h h' : ℤ) (l' : List ℤ) : ℤ → List ℤ :=
  update (update P h []) h' l'

theorem rechain_apply (P : ℤ → List ℤ) (h h' : ℤ) (l' : List ℤ) (x : ℤ) :
    rechain P h h' l' x = if x = h' then l' else if x = h then [] else P x := by
  unfold rechain
  rw [Function.update_apply, Function.update_apply]

namespace MllInv

variable (hinv : MllInv m P)

include hinv

/-- A pair of some chain is in its table. -/
theorem nonneg (hi : i ∈ P h) : 0 ≤ i :=
  (hinv.chain h (List.ne_nil_of_mem hi)).nonneg i hi

theorem ne_neg_one (hi : i ∈ P h) : i ≠ -1 := by
  have := hinv.nonneg hi
  omega

/-- A pair belongs to one chain only. -/
theorem owner_unique (hi : i ∈ P h) (hi' : i ∈ P h') : h = h' := by
  by_contra hne
  exact hinv.disjoint h h' hne hi hi'

/-- A pair of another chain, or a free one, is not the head of a chain. -/
theorem eq_nil_of_mem (hi : h' ∈ P h ∨ h' ∈ m.free) (hne : h' ≠ h) : P h' = [] := by
  by_contra hP
  have hmem := (hinv.chain h' hP).head_mem
  rcases hi with hi | hi
  · exact hne (hinv.owner_unique hmem hi)
  · exact hinv.notFree h' h' hmem hi

/-- The chain is not longer than the table. -/
theorem length_le (h : ℤ) : (P h).length ≤ m.mll_ts := by
  by_cases hP : P h = []
  · simp [hP]
  have hc := hinv.chain h hP
  have hsub : (P h).toFinset ⊆ Finset.Ico 0 (m.mll_ts : ℤ) := fun j hj => by
    have hj := List.mem_toFinset.mp hj
    exact Finset.mem_Ico.mpr ⟨hc.nonneg j hj, hinv.range h j hj⟩
  have hcard := Finset.card_le_card hsub
  rw [List.toFinset_card_of_nodup hc.nodup] at hcard
  simpa using hcard

theorem sp_pos_of_mem (hi : i ∈ P h) : 0 < m.mll_sp :=
  sp_pos hinv.freeNodup hinv.freeRange (hinv.notFree h i hi) (hinv.nonneg hi) (hinv.range h i hi)

/-- Replacing one chain, with pairs of its own and of the free stack. -/
theorem rechain (hchain : l' ≠ [] → ChainOk m' h' l')
    (hhead : h' = h ∨ h' ∈ P h ∨ h' ∈ m.free)
    (hframe : ∀ j, j ∉ P h → j ∉ l' → m'.mll_pt j = m.mll_pt j)
    (hmem : ∀ j ∈ l', j ∈ P h ∨ j ∈ m.free)
    (hidle : ∀ j ∈ P h, j ∉ l' → (m'.mll_pt j).succ = -1)
    (hfree : ∀ j, j ∈ m'.free ↔ (j ∈ m.free ∨ j ∈ P h) ∧ j ∉ l')
    (hnodup : m'.free.Nodup) (hts : m'.mll_ts = m.mll_ts) (hsp : m'.mll_sp ≤ m'.mll_ts) :
    MllInv m' (Mll.rechain P h h' l') := by
  have hout : ∀ x, x ≠ h → ∀ j ∈ P x, j ∉ P h ∧ j ∉ l' := fun x hx j hj => by
    have hjh : j ∉ P h := fun hjh => hx (hinv.owner_unique hj hjh)
    refine ⟨hjh, fun hjl => ?_⟩
    exact (hmem j hjl).elim hjh (hinv.notFree x j hj)
  have htable : ∀ j, (j ∈ P h ∨ j ∈ m.free) → 0 ≤ j ∧ j < m.mll_ts := fun j hj =>
    hj.elim (fun hj => ⟨hinv.nonneg hj, hinv.range h j hj⟩) (hinv.freeRange j)
  have hcases : ∀ x, ∀ j ∈ Mll.rechain P h h' l' x,
      (x = h' ∧ j ∈ l') ∨ (x ≠ h' ∧ x ≠ h ∧ j ∈ P x) := fun x j hj => by
    rw [rechain_apply] at hj
    split_ifs at hj with hx hxh
    · exact .inl ⟨hx, hj⟩
    · simp at hj
    · exact .inr ⟨hx, hxh, hj⟩
  -- field by field: a chain is the new one, or another one that no write has touched
  refine ⟨fun x hx => ?_, fun x y hxy => ?_, fun x j hj => ?_, fun x j hj => ?_,
    fun j h0 hlt => ?_, hnodup, fun j hj => ?_, fun j hj => ?_, hsp⟩
  · rw [rechain_apply] at hx ⊢
    split_ifs at hx ⊢ with hxh' hxh
    · rw [hxh']
      exact hchain hx
    · exact absurd rfl hx
    · exact (hinv.chain x hx).congr fun j hj => hframe j (hout x hxh j hj).1 (hout x hxh j hj).2
  · -- two chains share no pair
    intro j hjx hjy
    rcases hcases x j hjx with ⟨hx, hj⟩ | ⟨hx, hxh, hj⟩ <;>
      rcases hcases y j hjy with ⟨hy, hj'⟩ | ⟨hy, hyh, hj'⟩
    · exact hxy (hx.trans hy.symm)
    · exact (hout y hyh j hj').2 hj
    · exact (hout x hxh j hj).2 hj'
    · exact hxy (hinv.owner_unique hj hj')
  · rw [hts]
    rcases hcases x j hj with ⟨-, hj⟩ | ⟨-, -, hj⟩
    · exact (htable j (hmem j hj)).2
    · exact hinv.range x j hj
  · rw [hfree]
    rcases hcases x j hj with ⟨-, hj⟩ | ⟨-, hxh, hj⟩
    · exact fun hand => hand.2 hj
    · exact fun hand => hand.1.elim (hinv.notFree x j hj) (hout x hxh j hj).1
  · -- every pair is free or on a chain
    rw [hts] at hlt
    by_cases hjl : j ∈ l'
    · exact .inr ⟨h', by rw [rechain_apply, if_pos rfl]; exact hjl⟩
    · rcases hinv.cover j h0 hlt with hj | ⟨x, hj⟩
      · exact .inl ((hfree j).mpr ⟨.inl hj, hjl⟩)
      · by_cases hxh : x = h
        · exact .inl ((hfree j).mpr ⟨.inr (hxh ▸ hj), hjl⟩)
        · have hxh' : x ≠ h' := by
            rintro rfl
            have hor := hhead.resolve_left hxh
            rw [hinv.eq_nil_of_mem hor hxh] at hj
            simp at hj
          exact .inr ⟨x, by rw [rechain_apply, if_neg hxh', if_neg hxh]; exact hj⟩
  · have hj := ((hfree j).mp hj).1
    rw [hts]
    exact htable j (hj.symm)
  · -- a pair of no chain now was idle before or has been freed
    have hjl : j ∉ l' := fun hjl => hj h' (by rw [rechain_apply, if_pos rfl]; exact hjl)
    by_cases hjh : j ∈ P h
    · exact hidle j hjh hjl
    · rw [hframe j hjh hjl]
      refine hinv.idle j fun x hjx => ?_
      have hxh : x ≠ h := by rintro rfl; exact hjh hjx
      have hxh' : x ≠ h' := by
        rintro rfl
        rw [hinv.eq_nil_of_mem (hhead.resolve_left hxh) hxh] at hjx
        simp at hjx
      exact hj x (by rw [rechain_apply, if_neg hxh', if_neg hxh]; exact hjx)

/-- A deletion keeps the division of the table. -/
theorem relinked (hr : Relinked m m' h h' (P h) l' freed) :
    MllInv m' (Mll.rechain P h h' l') := by
  have hfreed : ∀ j ∈ freed, j ∈ P h := fun j hj => (hr.mem j).mpr (.inr hj)
  refine hinv.rechain hr.chain (hr.head.imp_right .inl) (fun j hj _ => hr.frame j hj)
    (fun j hj => .inl ((hr.mem j).mpr (.inl hj)))
    (fun j hj hjl => hr.null j (((hr.mem j).mp hj).resolve_left hjl)) (fun j => ?_) ?_ hr.ts ?_
  · rw [hr.stack, List.mem_append]
    constructor
    · rintro (hj | hj)
      · exact ⟨.inr (hfreed j hj), fun hjl => hr.keep j hjl hj⟩
      · refine ⟨.inl hj, fun hjl => ?_⟩
        exact hinv.notFree h j ((hr.mem j).mpr (.inl hjl)) hj
    · rintro ⟨hj | hj, hjl⟩
      · exact .inr hj
      · exact .inl (((hr.mem j).mp hj).resolve_left hjl)
  · rw [hr.stack]
    exact List.nodup_append.mpr ⟨hr.nodup, hinv.freeNodup, fun j hj j' hj' heq =>
      hinv.notFree h j (hfreed j hj) (heq ▸ hj')⟩
  · have hle := hinv.sp_le
    have hsp := hr.sp
    rw [hr.ts]
    omega

/-- Every pair of a chain with a complete tail holds two nodes. -/
theorem full_of_completeTail (hP : P h ≠ []) (htail : m.CompleteTail h) :
    ∀ i ∈ P h, (m.mll_pt i).svid ≠ 0 := by
  intro i hi
  have hc := hinv.chain h hP
  have hlen := hinv.length_le h
  by_cases h1 : (m.mll_pt i).succ = -1
  · obtain ⟨last, hfind, hs⟩ := htail
    obtain ⟨a, x, hl⟩ := (List.eq_nil_or_concat (P h)).resolve_left hP
    rw [List.concat_eq_append] at hl
    rw [hl] at hc hlen hi
    have hx := findLastPair_eq hc.path hc.nonneg (by simp at hlen; omega : a.length < m.mll_ts)
    rw [hfind, Option.some_inj] at hx
    rw [hc.path.succ_inj hc.nodup hc.neg_one_notMem hi (by simp)
      (h1.trans (path_concat.mp hc.path).2.symm), ← hx]
    exact hs
  · exact hc.full i hi h1

/-- With right back links the pair before `idx` is found through its back link. -/
theorem spliced_of_back {idx : ℤ} (hidx : idx ∈ P h) (hback : BackOk m h (P h))
    (hread : ReadsPred m idx) : Spliced m h idx (P h) := by
  have hc := hinv.chain h (List.ne_nil_of_mem hidx)
  have hne : idx ≠ h := fun heq => by
    have := (hc.pred_neg_iff hidx).mpr heq
    exact absurd hread.1 (by omega)
  obtain ⟨w, hw, hlink⟩ := hc.path.exists_succ_eq hidx hne
  have hpred := hback.pred_succ hc.path hc.nodup hc.neg_one_notMem hw (by rw [hlink]; exact hidx)
  simp only [hlink] at hpred
  exact ⟨hc, by rw [hpred]; exact hw, by rw [hpred]; exact hlink⟩

/-- A pair is found through a back link that names a pair linked to it. -/
theorem spliced_of_link {idx : ℤ} (hidx : idx ∈ P h)
    (hlink : (m.mll_pt (m.mll_pt idx).pred).succ = idx) : Spliced m h idx (P h) := by
  have hc := hinv.chain h (List.ne_nil_of_mem hidx)
  refine ⟨hc, ?_, hlink⟩
  by_contra hout
  -- a pair outside the chain is idle or linked within another chain
  by_cases howner : ∃ x, (m.mll_pt idx).pred ∈ P x
  · obtain ⟨x, hx⟩ := howner
    have hcx := hinv.chain x (List.ne_nil_of_mem hx)
    rcases hcx.path.succ_mem hx with hmem | hend
    · simp only [hlink] at hmem
      rw [hinv.owner_unique hidx hmem] at hout
      exact hout hx
    · simp only [hlink] at hend
      exact hc.neg_one_notMem (hend ▸ hidx)
  · have hidle := hinv.idle _ (not_exists.mp howner)
    rw [hlink] at hidle
    exact hc.neg_one_notMem (hidle ▸ hidx)

theorem spliced_of_not_stale (hstale : ¬m.FindsStale h mcg vid) (idx : ℤ) (hidx : idx ∈ P h)
    (hfind : findPair m.mll_pt mcg vid m.mll_ts h = some idx) (hread : m.ReadsPred idx) :
    m.Spliced h idx (P h) :=
  hinv.spliced_of_link hidx (by_contra fun hne =>
    hstale ⟨idx, hfind, hinv.ne_neg_one hidx, hread, hne⟩)

/-- `del_node` on a chain: it returns `-3` and changes nothing when no pair holds the node, and
otherwise deletes the node from the first pair that holds it. -/
theorem delNode (hP : P h ≠ [])
    (hnode : (mcg, vid) = (0, 0) → ∀ i ∈ P h, (m.mll_pt i).svid ≠ 0)
    (hsplice : ∀ idx ∈ P h, findPair m.mll_pt mcg vid m.mll_ts h = some idx → ReadsPred m idx →
      Spliced m h idx (P h)) :
    (m.delNode h mcg vid = some (-3, m) ∧ (mcg, vid) ∉ chainNodes m (P h)) ∨
      ∃ idx ∈ P h, findPair m.mll_pt mcg vid m.mll_ts h = some idx ∧
        ∃ m' h' l' freed, m.delNode h mcg vid = some (if l' = [] then -2 else h', m') ∧
          Deleted m m' h h' (P h) l' freed (mcg, vid) (TakesCase8 m idx mcg vid)
            (TakesCase10 m idx mcg vid) := by
  have hc := hinv.chain h hP
  have hfind := findPair_spec hc.path hP hc.nonneg hc.empty hnode (hinv.length_le h)
  rcases hfind with ⟨heq, hno⟩ | ⟨idx, hidx, heq, hmem⟩
  · refine .inl ⟨by simp [Mll.delNode, heq], fun hm => ?_⟩
    obtain ⟨j, hj, hjm⟩ := mem_chainNodes.mp hm
    exact hno j hj hjm
  · have hne : idx ≠ -1 := by
      have := hc.nonneg idx hidx
      omega
    obtain ⟨m', h', l', freed, hret, hdel⟩ := doDelNode_spec hmem (hinv.sp_pos_of_mem hidx)
      hinv.sp_le hc hidx (hinv.length_le h) (hsplice idx hidx heq)
    refine .inr ⟨idx, hidx, heq, m', h', l', freed, ?_, hdel⟩
    simp only [Mll.delNode, heq, if_neg hne]
    exact hret

end MllInv

/-- The empty table is divided into no chains. -/
theorem mllInv_init (ts : ℕ) (hw : ℤ → HwPair) : (mllInit ts hw).MllInv fun _ => [] where
  chain h hne := absurd rfl hne
  disjoint _ _ _ := List.disjoint_nil_left _
  range h i hi := by simp at hi
  notFree h i hi := by simp at hi
  cover i h0 hlt := by
    left
    refine List.mem_map.mpr ⟨i.toNat, List.mem_range.mpr ?_, ?_⟩
    · simp only [mllInit] at hlt ⊢
      omega
    · simp only [mllInit]
      omega
  freeNodup := by
    refine List.Nodup.map_on (fun i _ j _ heq => ?_) List.nodup_range
    simp only [mllInit] at heq
    omega
  freeRange i hi := by
    obtain ⟨k, hk, rfl⟩ := List.mem_map.mp hi
    have := List.mem_range.mp hk
    simp only [mllInit] at this ⊢
    omega
  idle _ _ := rfl
  sp_le := Nat.zero_le _

/-! ### One operation on one chain -/

/-- The chain with head `h` has become the chain `l'` with head `h'` and the others have stayed
as they were. Its back links are right again unless `untold`, and the hardware table shows it
unless `misled`. -/
structure Rechained (m m' : Mll) (P : ℤ → List ℤ) (h h' : ℤ) (l' : List ℤ)
    (untold misled : Prop) : Prop where
  inv : MllInv m' (rechain P h h' l')
  keep : ∀ x, x ≠ h → ∀ j ∈ P x, m'.mll_pt j = m.mll_pt j
  fresh : h' ≠ h → P h' = []
  back : BackOk m h (P h) → ¬untold → BackOk m' h' l'
  hw : HwOk m (P h) → ¬misled → HwOk m' l'
  keepHw : HwOk m (P h) → ¬misled → ∀ x, x ≠ h → ∀ j ∈ P x, m'.hw j = m.hw j

namespace Rechained

variable {untold misled : Prop} (hr : Rechained m m' P h h' l' untold misled)

include hr

theorem mono {untold' misled' : Prop} (hu : untold → untold') (hm : misled → misled') :
    Rechained m m' P h h' l' untold' misled' :=
  ⟨hr.inv, hr.keep, hr.fresh, fun hb hn => hr.back hb (mt hu hn), fun ho hn => hr.hw ho (mt hm hn),
    fun ho hn => hr.keepHw ho (mt hm hn)⟩

theorem backOk (hb : ∀ x, BackOk m x (P x)) (hu : ¬untold) (hP : ∀ x, P x ≠ [] → x ∈ P x) (x : ℤ) :
    BackOk m' x (Mll.rechain P h h' l' x) := by
  rw [rechain_apply]
  split_ifs with hx hxh
  · rw [hx]
    exact hr.back (hb h) hu
  · trivial
  · by_cases hnil : P x = []
    · rw [hnil]
      trivial
    · unfold BackOk
      rw [hr.keep x hxh x (hP x hnil)]
      exact Back.congr (hb x) fun j hj => by rw [hr.keep x hxh j hj]

theorem hwOk (ho : ∀ x, HwOk m (P x)) (hm : ¬misled) (x : ℤ) :
    HwOk m' (Mll.rechain P h h' l' x) := by
  rw [rechain_apply]
  split_ifs with hx hxh
  · exact hr.hw (ho h) hm
  · simp [HwOk]
  · intro j hj
    rw [hr.keep x hxh j hj, hr.keepHw (ho h) hm x hxh j hj]
    exact ho x j hj

end Rechained

namespace MllInv

variable (hinv : MllInv m P)

include hinv

/-- A deletion changes its own chain only. -/
theorem rechained_of_deleted {untold misled : Prop}
    (hd : Deleted m m' h h' (P h) l' freed n untold misled) :
    Rechained m m' P h h' l' untold misled := by
  have hout : ∀ x, x ≠ h → ∀ j ∈ P x, j ∉ P h := fun x hx j hj hjh =>
    hx (hinv.owner_unique hj hjh)
  refine ⟨hinv.relinked hd.toRelinked, fun x hx j hj => hd.frame j (hout x hx j hj), fun hne => ?_,
    hd.back, fun ho hm => (hd.hw ho hm).1,
    fun ho hm x hx j hj => (hd.hw ho hm).2 j (hout x hx j hj)⟩
  exact hinv.eq_nil_of_mem (.inl (hd.head.resolve_left hne)) hne

/-- The division of the table once a free pair has joined the chain with head `h`, or has become
a chain of its own. -/
theorem taken {idx : ℤ} (hstack : m.free = idx :: m'.free) (hsp : m'.mll_sp ≤ m.mll_ts)
    (hts : m'.mll_ts = m.mll_ts)
    (hframe : ∀ j, j ∉ P h → j ≠ idx → m'.mll_pt j = m.mll_pt j)
    (hchain : ChainOk m' h (P h ++ [idx])) :
    MllInv m' (Mll.rechain P h h (P h ++ [idx])) := by
  have hnd := hinv.freeNodup
  rw [hstack, List.nodup_cons] at hnd
  refine hinv.rechain (fun _ => hchain) (.inl rfl) (fun j hj hjl => hframe j hj ?_)
    (fun j hj => ?_) (fun j hj hjl => absurd (List.mem_append_left _ hj) hjl) (fun j => ?_) hnd.2
    hts (by rw [hts]; exact hsp)
  · rintro rfl
    simp at hjl
  · rcases List.mem_append.mp hj with hj | hj
    · exact .inl hj
    · right
      rw [hstack, List.mem_singleton.mp hj]
      exact List.mem_cons_self
  · rw [hstack, List.mem_append, List.mem_singleton, List.mem_cons]
    constructor
    · intro hj
      refine ⟨.inl (.inr hj), ?_⟩
      rintro (hjh | rfl)
      · exact hinv.notFree h j hjh (hstack ▸ List.mem_cons_of_mem _ hj)
      · exact hnd.1 hj
    · rintro ⟨(rfl | hj) | hj, hnot⟩
      · exact absurd (.inr rfl) hnot
      · exact hj
      · exact absurd (.inl hj) hnot

/-- `add_node` with a negative predecessor either fails and changes nothing, or starts a chain. -/
theorem newChain {pred : ℤ} (mcg : ℕ) (hpred : pred < 0) (hvid : vid ≠ 0) (wrOk : Bool) :
    m.addNode pred mcg vid wrOk = some (-1, m) ∨
      ∃ idx m', m.addNode pred mcg vid wrOk = some (idx, m') ∧ 0 ≤ idx ∧ P idx = [] ∧
        Rechained m m' P idx idx [idx] False False ∧ chainNodes m' [idx] = {(mcg, vid)} := by
  simp only [addNode, if_pos hpred]
  rcases createPair_spec hinv.freeRange pred mcg vid wrOk with ⟨heq, -⟩ | ⟨idx, m', heq, hcr⟩
  · exact .inl (by rw [heq])
  · right
    refine ⟨idx, m', by rw [heq], ?_⟩
    have hidx : idx ∈ m.free := hcr.stack ▸ List.mem_cons_self
    have h0 := (hinv.freeRange idx hidx).1
    have hnil : P idx = [] := by
      by_contra hne
      exact hinv.notFree idx idx (hinv.chain idx hne).head_mem hidx
    have hpt : m'.mll_pt idx = ⟨pred, -1, vid, mcg, 0, 0⟩ := by rw [hcr.pt, if_pos rfl]
    have hframe : ∀ j, j ≠ idx → m'.mll_pt j = m.mll_pt j := fun j hj => by
      rw [hcr.pt, if_neg hj]
    have hchain : ChainOk m' idx [idx] :=
      { path := ⟨rfl, by simp only [hpt, path_nil]⟩
        ne := by simp
        nodup := List.nodup_singleton _
        nonneg := by simpa using h0
        head := by rw [hpt]; exact hpred
        pred := fun i hi hne => absurd (List.mem_singleton.mp hi) hne
        full := fun i hi hne => by
          rw [List.mem_singleton.mp hi, hpt] at hne
          exact absurd rfl hne
        fvid := fun i hi => by rw [List.mem_singleton.mp hi, hpt]; exact hvid
        empty := fun i hi _ => by rw [List.mem_singleton.mp hi, hpt] }
    have hout : ∀ x, ∀ j ∈ P x, j ≠ idx := fun x j hj heq => hinv.notFree x j hj (heq ▸ hidx)
    have htaken := hinv.taken hcr.stack hcr.sp hcr.ts (fun j _ => hframe j)
      (h := idx) (by rw [hnil]; exact hchain)
    rw [hnil] at htaken
    refine ⟨h0, hnil, ⟨htaken, fun x _ j hj => hframe j (hout x j hj), fun hne => absurd rfl hne,
      fun _ _ => ⟨rfl, trivial⟩, fun _ _ i hi => ?_,
      fun _ _ x _ j hj => hcr.hw j (hout x j hj)⟩, ?_⟩
    · rw [List.mem_singleton.mp hi]
      exact .single (by rw [hpt]; rfl) (by rw [hpt]) hcr.hwNode hcr.hwLast
    · rw [chainNodes_cons, hpt]
      rfl

/-- `add_node` with the head of a chain appends the node, unless the tail is complete and no pair
can be created. -/
theorem appendNode (hP : P h ≠ []) (hvid : vid ≠ 0) {wrOk : Bool}
    (hroom : CompleteTail m h → ¬m.Exhausted ∧ wrOk = true) :
    ∃ m' l', m.addNode h mcg vid wrOk = some (h, m') ∧ l' ≠ [] ∧
      Rechained m m' P h h l' False False ∧
        chainNodes m' l' = (mcg, vid) ::ₘ chainNodes m (P h) := by
  have hc := hinv.chain h hP
  have hlen := hinv.length_le h
  obtain ⟨a, last, hl⟩ := (List.eq_nil_or_concat (P h)).resolve_left hP
  rw [List.concat_eq_append] at hl
  rw [hl] at hc hlen
  have hlast1 : (m.mll_pt last).succ = -1 := (path_concat.mp hc.path).2
  have hfind : findLastPair m.mll_pt m.mll_ts h = some last :=
    findLastPair_eq hc.path hc.nonneg (by simp at hlen; omega)
  have hneg : ¬h < 0 := by have := hc.head_nonneg; omega
  have hout : ∀ x, x ≠ h → ∀ j ∈ P x, j ∉ a ++ [last] := fun x hx j hj hjh =>
    hx (hinv.owner_unique hj (hl ▸ hjh))
  simp only [addNode, if_neg hneg, Mll.appendNode, hfind, Option.map_some]
  by_cases hs : (m.mll_pt last).svid = 0
  · -- the tail has room for a second node
    rw [if_pos hs]
    have hf := insertSecondNode_filled m last mcg vid
    generalize m.insertSecondNode last mcg vid = m' at hf
    have hne : ∀ x, x ≠ h → ∀ j ∈ P x, j ≠ last := fun x hx j hj heq =>
      hout x hx j hj (by simp [heq])
    have hmem : ∀ {j}, j ∈ a ++ [last] ↔ j ∈ P h := by rw [hl]
    refine ⟨m', a ++ [last], rfl, hc.ne, ⟨?_, fun x hx j hj => hf.frame j (hne x hx j hj),
      fun hx => absurd rfl hx, ?_, ?_, fun _ _ x hx j hj => hf.hw j (hne x hx j hj)⟩, ?_⟩
    · refine hinv.rechain (fun _ => hf.chainOk hc hvid) (.inl rfl) (fun j _ hj => hf.frame j ?_)
        (fun j hj => .inl (hmem.mp hj)) (fun j hj hjl => absurd (hmem.mpr hj) hjl) (fun j => ?_)
        ?_ hf.stack.ts ?_
      · rintro rfl
        simp at hj
      · rw [hf.stack.free, hmem]
        constructor
        · exact fun hj => ⟨.inl hj, fun hjP => hinv.notFree h j hjP hj⟩
        · exact fun hj => hj.1.resolve_right hj.2
      · rw [hf.stack.free]
        exact hinv.freeNodup
      · rw [hf.stack.sp, hf.stack.ts]
        exact hinv.sp_le
    · rw [hl]
      exact fun hb _ => hf.backOk hb
    · rw [hl]
      exact fun hok _ => hf.hwOk hc hvid hok
    · rw [hl]
      exact hf.nodes hc hvid hs
  · -- the tail is complete, and a new pair is put behind it
    obtain ⟨hget, rfl⟩ := hroom ⟨last, hfind, hs⟩
    rcases createPair_spec hinv.freeRange last mcg vid true with ⟨-, hor⟩ | ⟨idx, m₁, heq, hcr⟩
    · rcases hor with hex | hwr
      · exact absurd hex hget
      · simp at hwr
    simp only [if_neg hs, heq]
    have hfree : idx ∈ m.free := hcr.stack ▸ List.mem_cons_self
    have h0 := (hinv.freeRange idx hfree).1
    have hidx : idx ∉ a ++ [last] := fun hm => hinv.notFree h idx (hl ▸ hm) hfree
    have he := hcr.extended (fun heq => hidx (by simp [heq]))
    generalize m₁.pairSetNextPair last idx = m' at he
    have hne : ∀ x, x ≠ h → ∀ j ∈ P x, j ≠ idx ∧ j ≠ last := fun x hx j hj =>
      ⟨fun heq => hinv.notFree x j hj (heq ▸ hfree), fun heq => hout x hx j hj (by simp [heq])⟩
    have hframe : ∀ x, x ≠ h → ∀ j ∈ P x, m'.mll_pt j = m.mll_pt j := fun x hx j hj =>
      he.frame (hne x hx j hj).1 (hne x hx j hj).2
    refine ⟨m', P h ++ [idx], rfl, by simp, ⟨?_, hframe, fun hx => absurd rfl hx, ?_, ?_,
      fun _ _ x hx j hj => he.hw j (hne x hx j hj).1 (hne x hx j hj).2⟩, ?_⟩
    · refine hinv.taken he.stack he.sp he.ts (fun j hj hji => he.frame hji ?_) ?_
      · rintro rfl
        rw [hl] at hj
        simp at hj
      · rw [hl]
        exact he.chainOk hc hidx h0 hvid hs
    · rw [hl]
      exact fun hb _ => he.backOk hc hidx hb
    · rw [hl]
      exact fun hok _ => he.hwOk hidx h0 hok
    · rw [hl]
      exact he.nodes hidx

end MllInv

end Mll

end Presteramgr
