import CubeQuery.Proofs.Query.Traversal

/-!
What drilling down adds. A tuple that holds a target is followed by a block of tuples in which the
first target gives way to members below it. Tuples that are there already are passed over, together
with what they would lead to; nothing is lost by that as long as whatever leads to a tuple agrees on
whether it is drilled in its turn.
-/

namespace CubeQuery

open CubeQuery.Language

/-! ### Blocks -/

/-- The blocks that follow the tuples of a set. -/
def blocksOf (block : (emitted : TupleSet) → Tuple → TupleSet) :
    (emitted : TupleSet) → TupleSet → List TupleSet
  | _, [] => []
  | emitted, t :: rest =>
    block emitted t :: blocksOf block (emitted ++ block emitted t) rest

theorem interleave_eq (block : TupleSet → Tuple → TupleSet) (emitted set : TupleSet) :
    interleave block emitted set =
      (set.zipWith List.cons (blocksOf block emitted set)).flatten := by
  induction set generalizing emitted with
  | nil => rfl
  | cons t rest ih =>
    rw [interleave, ih, blocksOf, List.zipWith_cons_cons, List.flatten_cons]

/-- New tuples: none of them is there already, and none comes twice. -/
structure Fresh (present emitted new : TupleSet) : Prop where
  nodup : new.Nodup
  absent : ∀ u ∈ new, u ∉ present
  unseen : ∀ u ∈ new, u ∉ emitted

namespace Fresh

variable {present emitted a b : TupleSet} {u : Tuple}

theorem nil : Fresh present emitted [] :=
  ⟨.nil, by simp, by simp⟩

theorem append (ha : Fresh present emitted a) (hb : Fresh present (emitted ++ a) b) :
    Fresh present emitted (a ++ b) where
  nodup := List.nodup_append'.2
    ⟨ha.nodup, hb.nodup, fun _ hu hu' => hb.unseen _ hu' (List.mem_append_right _ hu)⟩
  absent u hu := (List.mem_append.1 hu).elim (ha.absent u) (hb.absent u)
  unseen u hu := (List.mem_append.1 hu).elim (ha.unseen u)
    fun hu hold => hb.unseen u hu (List.mem_append_left _ hold)

theorem cons (hpresent : u ∉ present) (hemitted : u ∉ emitted)
    (ha : Fresh present (emitted ++ [u]) a) : Fresh present emitted (u :: a) := by
  refine append (a := [u]) ⟨List.nodup_singleton u, ?_, ?_⟩ ha
  · simpa using hpresent
  · simpa using hemitted

end Fresh

/-! ### First targets -/

/-- The first of the members that are targets, with its position. -/
structure FirstTarget (targets : List Element) (t : Tuple) (position : Nat) (e : Element) :
    Prop where
  at_position : t[position]? = some e
  target : e ∈ targets
  first : ∀ q < position, ∀ x, t[q]? = some x → x ∉ targets

namespace FirstTarget

variable {targets : List Element} {t : Tuple} {p q : Nat} {e x : Element}

theorem lt_length (h : FirstTarget targets t p e) : p < t.length :=
  (List.getElem?_eq_some_iff.1 h.at_position).1

theorem mem (h : FirstTarget targets t p e) : e ∈ t :=
  List.mem_of_getElem? h.at_position

theorem findIdx? (h : FirstTarget targets t p e) :
    t.findIdx? (targets.contains ·) = some p := by
  obtain ⟨hlt, hat⟩ := List.getElem?_eq_some_iff.1 h.at_position
  refine List.findIdx?_eq_some_iff_getElem.2 ⟨hlt, by simpa [hat] using h.target, fun q hq => ?_⟩
  simpa using h.first q hq _ (List.getElem?_eq_getElem (Nat.lt_trans hq hlt))

theorem of_findIdx? (h : t.findIdx? (targets.contains ·) = some p) :
    ∃ e, FirstTarget targets t p e := by
  obtain ⟨hlt, htarget, hfirst⟩ := List.findIdx?_eq_some_iff_getElem.1 h
  refine ⟨t[p], List.getElem?_eq_getElem hlt, by simpa using htarget, fun q hq x hx => ?_⟩
  obtain ⟨hlt', rfl⟩ := List.getElem?_eq_some_iff.1 hx
  simpa using hfirst q hq

theorem unique (h : FirstTarget targets t p e) (h' : FirstTarget targets t q x) :
    p = q ∧ e = x := by
  obtain rfl : p = q := Option.some.inj (h.findIdx?.symm.trans h'.findIdx?)
  exact ⟨rfl, Option.some.inj (h.at_position.symm.trans h'.at_position)⟩

/-- A target in the place of the first one is the first again. -/
theorem set (h : FirstTarget targets t p e) (hx : x ∈ targets) :
    FirstTarget targets (t.set p x) p x where
  at_position := by rw [List.getElem?_set_self h.lt_length]
  target := hx
  first q hq y hy := by
    rw [List.getElem?_set_ne (by omega)] at hy
    exact h.first q hq y hy

end FirstTarget

namespace Context

variable {ctx : Context} {targets : List Element} {recursive : Bool} {present emitted : TupleSet}
  {t u : Tuple} {p : Nat} {e d x y : Element}

/-! ### Members below others -/

/-- The second element lies below the first one. -/
def Descends (ctx : Context) : Element → Element → Prop :=
  Relation.TransGen fun x y => y ∈ ctx.childrenOf x

/-- From a target, drilling goes on to those of its children that are targets. -/
def GoesOn (ctx : Context) (targets : List Element) (recursive : Bool) (x y : Element) : Prop :=
  recursive = true ∧ y ∈ targets ∧ y ∈ ctx.childrenOf x

/-- Drilling a target leads to the children of all members that it goes on to. -/
def DrillsTo (ctx : Context) (targets : List Element) (recursive : Bool) (e d : Element) : Prop :=
  ∃ x, Relation.ReflTransGen (ctx.GoesOn targets recursive) e x ∧ d ∈ ctx.childrenOf x

theorem mem_childrenOf (h : d ∈ ctx.childrenOf e) : ∃ m child, e = .member m ∧ d = .member child ∧
    child ∈ ctx.cube.memberChildren m := by
  cases e with
  | member m =>
    obtain ⟨child, hchild, rfl⟩ := List.mem_map.1 h
    exact ⟨m, child, rfl, rfl, hchild⟩
  | measure id => cases h
  | calculated i => cases h

theorem parent_unique (hx : d ∈ ctx.childrenOf x) (hy : d ∈ ctx.childrenOf y) : x = y := by
  have hparent {e : Element} (he : d ∈ ctx.childrenOf e) : ctx.parentOf? d = some e := by
    obtain ⟨m, child, rfl, rfl, hchild⟩ := mem_childrenOf he
    rw [Cube.memberChildren] at hchild
    split at hchild
    · have hsome := (List.mem_filter.1 hchild).2
      rw [parentOf?, beq_iff_eq.1 hsome]
      rfl
    · cases hchild
  exact Option.some.inj ((hparent hx).symm.trans (hparent hy))

theorem DrillsTo.descends (h : ctx.DrillsTo targets recursive e d) : ctx.Descends e d := by
  obtain ⟨x, hx, hd⟩ := h
  exact .tail' (Relation.ReflTransGen.mono (fun _ _ hstep => hstep.2.2) _ _ hx) hd

theorem depth_lt_of_descends (hg : Cube.Graph ctx.cube) (he : ctx.Has e)
    (h : ctx.Descends e d) : ctx.Has d ∧ ctx.depth e < ctx.depth d := by
  have hstep {x y : Element} (hx : ctx.Has x) (hy : y ∈ ctx.childrenOf x) :
      ctx.Has y ∧ ctx.depth x < ctx.depth y := by
    obtain ⟨m, child, rfl, rfl, hchild⟩ := mem_childrenOf hy
    obtain ⟨hhas, -, hdepth⟩ := hg.memberChildren_below hx hchild
    exact ⟨hhas, show ctx.cube.depth m < ctx.cube.depth child by omega⟩
  induction h with
  | single hd => exact hstep he hd
  | tail _ hd ih =>
    obtain ⟨hhas, hlt⟩ := hstep ih.1 hd
    exact ⟨hhas, Nat.lt_trans ih.2 hlt⟩

theorem drillsTo_false : ctx.DrillsTo targets false e d ↔ d ∈ ctx.childrenOf e := by
  constructor
  · rintro ⟨x, hx, hd⟩
    rcases hx.cases_head with rfl | ⟨y, ⟨⟨⟩, -⟩, -⟩
    exact hd
  · exact fun hd => ⟨e, .refl, hd⟩

/-- Drilling leads to all members below which it passes targets only. -/
theorem drillsTo_true (hg : Cube.Graph ctx.cube) (he : ctx.Has e) :
    ctx.DrillsTo targets true e d ↔
      ctx.Descends e d ∧ ∀ x, ctx.Descends e x → ctx.Descends x d → x ∈ targets := by
  constructor
  · intro h
    refine ⟨h.descends, ?_⟩
    obtain ⟨x, hx, hd⟩ := h
    have hpassed : ∀ y, ctx.Descends e y → y = x ∨ ctx.Descends y x → y ∈ targets := by
      clear hd
      induction hx with
      | refl =>
        rintro y hey (rfl | hye)
        · exact absurd (depth_lt_of_descends hg he hey).2 (Nat.lt_irrefl _)
        · have hboth := depth_lt_of_descends hg he (hey.trans hye)
          exact absurd hboth.2 (Nat.lt_irrefl _)
      | tail _ hstep ih =>
        rintro y hey (rfl | hyx)
        · exact hstep.2.1
        · -- The last step down to it is the only one that there is.
          obtain ⟨z, hyz, hz⟩ := Relation.TransGen.tail'_iff.1 hyx
          obtain rfl := parent_unique hz hstep.2.2
          exact ih y hey ((Relation.reflTransGen_iff_eq_or_transGen.1 hyz).imp_left Eq.symm)
    intro y hey hyd
    obtain ⟨z, hyz, hz⟩ := Relation.TransGen.tail'_iff.1 hyd
    obtain rfl := parent_unique hz hd
    exact hpassed y hey ((Relation.reflTransGen_iff_eq_or_transGen.1 hyz).imp_left Eq.symm)
  · rintro ⟨h, hbetween⟩
    induction h with
    | single hd => exact ⟨e, .refl, hd⟩
    | @tail x d hx hd ih =>
      have htarget := hbetween x hx (.single hd)
      obtain ⟨w, hw, hxw⟩ := ih fun y hey hyx => hbetween y hey (hyx.tail hd)
      exact ⟨x, hw.tail ⟨rfl, htarget, hxw⟩, hd⟩

/-- Drilling puts a child in the place of a target; or with recursion anything below it, with
nothing but targets between them. -/
def PutsIn (ctx : Context) (targets : List Element) (recursive : Bool) (e d : Element) : Prop :=
  if recursive then
    ctx.Descends e d ∧ ∀ x, ctx.Descends e x → ctx.Descends x d → x ∈ targets
  else d ∈ ctx.childrenOf e

theorem drillsTo_iff (hg : Cube.Graph ctx.cube) (he : ctx.Has e) :
    ctx.DrillsTo targets recursive e d ↔ ctx.PutsIn targets recursive e d := by
  cases recursive with
  | false => exact drillsTo_false
  | true => exact drillsTo_true hg he

/-! ### One block -/

/-- The children of the first target have all been put in its place. -/
def Expanded (ctx : Context) (targets : List Element) (found : TupleSet) (t : Tuple) : Prop :=
  ∀ p e, FirstTarget targets t p e → ∀ d ∈ ctx.childrenOf e, t.set p d ∈ found

theorem Expanded.mono {found found' : TupleSet} (h : ctx.Expanded targets found t)
    (hsub : found ⊆ found') : ctx.Expanded targets found' t :=
  fun p e hfirst d hd => hsub (h p e hfirst d hd)

/-- Where a tuple of a block comes from. If drilling goes on to the member that has been put in, its
children have been put in its place. -/
structure Stems (ctx : Context) (targets : List Element) (recursive : Bool) (found : TupleSet)
    (t : Tuple) (p : Nat) (e : Element) (u : Tuple) (d : Element) : Prop where
  drills : ctx.DrillsTo targets recursive e d
  eq_set : u = t.set p d
  expanded : recursive = true → d ∈ targets → ctx.Expanded targets found u

theorem Stems.mono {found found' : TupleSet} (h : ctx.Stems targets recursive found t p e u d)
    (hsub : found ⊆ found') : ctx.Stems targets recursive found' t p e u d :=
  ⟨h.drills, h.eq_set, fun hflag hd => (h.expanded hflag hd).mono hsub⟩

/-- What a block is, whatever has been emitted before it. -/
structure Drilled (ctx : Context) (targets : List Element) (recursive : Bool)
    (present emitted : TupleSet) (t : Tuple) (block : TupleSet) : Prop where
  fresh : Fresh present emitted block
  expanded : ctx.Expanded targets (present ++ (emitted ++ block)) t
  stems : ∀ u ∈ block, ∃ p e d, FirstTarget targets t p e ∧
    ctx.Stems targets recursive (present ++ (emitted ++ block)) t p e u d

/-- What becomes of some of the children of a target. -/
structure ChildrenDrilled (ctx : Context) (targets : List Element) (recursive : Bool)
    (present emitted : TupleSet) (t : Tuple) (p : Nat) (e : Element) (children : List Element)
    (block : TupleSet) : Prop where
  fresh : Fresh present emitted block
  complete : ∀ child ∈ children, t.set p child ∈ present ++ (emitted ++ block)
  stems : ∀ u ∈ block, ∃ d, ctx.Stems targets recursive (present ++ (emitted ++ block)) t p e u d

/-- A child with what drilling makes of its tuple, if it goes on to the child. -/
structure ChildDrilled (ctx : Context) (targets : List Element) (recursive : Bool)
    (present emitted : TupleSet) (t : Tuple) (p : Nat) (child : Element) (block : TupleSet) :
    Prop where
  goes : recursive = true → child ∈ targets →
    ctx.Drilled targets recursive present (emitted ++ [t.set p child]) (t.set p child) block
  stops : ¬ (recursive = true ∧ child ∈ targets) → block = []

theorem ChildDrilled.fresh {block : TupleSet}
    (h : ctx.ChildDrilled targets recursive present emitted t p d block) :
    Fresh present (emitted ++ [t.set p d]) block := by
  by_cases hgoes : recursive = true ∧ d ∈ targets
  · exact (h.goes hgoes.1 hgoes.2).fresh
  · rw [h.stops hgoes]
    exact .nil

theorem ChildDrilled.stems {block : TupleSet} (hfirst : FirstTarget targets t p e)
    (hd : d ∈ ctx.childrenOf e)
    (h : ctx.ChildDrilled targets recursive present emitted t p d block) :
    ∀ u ∈ t.set p d :: block, ∃ x, ctx.Stems targets recursive
      (present ++ (emitted ++ t.set p d :: block)) t p e u x := by
  have hfound : present ++ (emitted ++ [t.set p d] ++ block) =
      present ++ (emitted ++ t.set p d :: block) := by simp
  intro u hu
  rcases List.mem_cons.1 hu with rfl | hu
  · exact ⟨d, ⟨e, .refl, hd⟩, rfl, fun hflag htarget => hfound ▸ (h.goes hflag htarget).expanded⟩
  · by_cases hgoes : recursive = true ∧ d ∈ targets
    · -- The first target of the child's tuple is the child itself.
      obtain ⟨q, y, x, hfirst', hstems⟩ := (h.goes hgoes.1 hgoes.2).stems u hu
      obtain ⟨rfl, rfl⟩ := hfirst'.unique (hfirst.set hgoes.2)
      obtain ⟨w, hw, hx⟩ := hstems.drills
      exact ⟨x, ⟨w, hw.head ⟨hgoes.1, hgoes.2, hd⟩, hx⟩, by rw [hstems.eq_set, List.set_set],
        hfound ▸ hstems.expanded⟩
    · rw [h.stops hgoes] at hu
      cases hu

theorem ChildrenDrilled.cons {child : Element} {rest : List Element} {block more : TupleSet}
    (hfresh : Fresh present emitted block) (hchild : t.set p child ∈ block)
    (hstems : ∀ u ∈ block, ∃ d,
      ctx.Stems targets recursive (present ++ (emitted ++ block)) t p e u d)
    (hrest : ctx.ChildrenDrilled targets recursive present (emitted ++ block) t p e rest more) :
    ctx.ChildrenDrilled targets recursive present emitted t p e (child :: rest)
      (block ++ more) where
  fresh := hfresh.append hrest.fresh
  complete := by
    rw [← List.append_assoc emitted]
    refine List.forall_mem_cons.2 ⟨?_, hrest.complete⟩
    simp [hchild]
  stems u hu := by
    rw [← List.append_assoc emitted]
    rcases List.mem_append.1 hu with hu | hu
    · obtain ⟨d, hd⟩ := hstems u hu
      refine ⟨d, hd.mono fun v hv => ?_⟩
      rw [← List.append_assoc]
      exact List.mem_append_left _ hv
    · exact hrest.stems u hu

/-- By induction on the children; those that are passed over have been found before. -/
theorem drilled_childTuples (further : TupleSet → Tuple → Element → TupleSet)
    (hfirst : FirstTarget targets t p e)
    (hfurther : ∀ emitted, ∀ child ∈ ctx.childrenOf e,
      ctx.ChildDrilled targets recursive present emitted t p child
        (further (emitted ++ [t.set p child]) (t.set p child) child))
    (emitted : TupleSet) {children : List Element} (hchildren : children ⊆ ctx.childrenOf e) :
    ctx.ChildrenDrilled targets recursive present emitted t p e children
      (childTuples present further t p emitted children) := by
  induction children generalizing emitted with
  | nil => exact ⟨.nil, by simp, by simp [childTuples]⟩
  | cons child rest ih =>
    obtain ⟨hchild, hrest⟩ := List.cons_subset.1 hchildren
    rw [childTuples]
    dsimp only
    split
    · rename_i hold
      obtain ⟨hfresh, hcomplete, hstems⟩ := ih emitted hrest
      refine ⟨hfresh, List.forall_mem_cons.2 ⟨?_, hcomplete⟩, hstems⟩
      simp only [List.mem_append]
      tauto
    · rename_i hnew
      obtain ⟨hpresent, hemitted⟩ := not_or.1 hnew
      have hblock := hfurther emitted child hchild
      exact .cons (.cons hpresent hemitted hblock.fresh) List.mem_cons_self
        (hblock.stems hfirst hchild) (ih _ hrest)

/-! ### Levels -/

/-- The levels below that of an element. -/
def levelsUnder (ctx : Context) : Element → Nat
  | .member id => ctx.cube.levelsBelow id
  | _ => 0

theorem levelsUnder_child (hg : Cube.Graph ctx.cube) (he : ctx.Has e)
    (hd : d ∈ ctx.childrenOf e) : ctx.levelsUnder d + 1 = ctx.levelsUnder e := by
  obtain ⟨m, child, rfl, rfl, hchild⟩ := mem_childrenOf hd
  exact hg.levelsBelow_child he hchild

theorem levelsUnder_le (he : e ∈ t) : ctx.levelsUnder e ≤ ctx.levelsBelow t := by
  have hmax (ns : List Nat) (n : Nat) : n ≤ ns.foldl max n ∧ ∀ k ∈ ns, k ≤ ns.foldl max n := by
    induction ns generalizing n with
    | nil => simp
    | cons k ns ih =>
      obtain ⟨hfirst, hrest⟩ := ih (max n k)
      rw [List.foldl_cons, List.forall_mem_cons]
      exact ⟨by omega, by omega, hrest⟩
  exact (hmax (t.map ctx.levelsUnder) 0).2 _ (List.mem_map_of_mem he)

/-- By induction on the levels that are left, which are never used up. -/
theorem drilled_drillTuple (hg : Cube.Graph ctx.cube) (ht : ctx.HasAll t) {levels : Nat}
    (hlevels : ∀ p e, FirstTarget targets t p e → ctx.levelsUnder e ≤ levels)
    (emitted : TupleSet) : ctx.Drilled targets recursive present emitted t
      (ctx.drillTuple targets present recursive levels emitted t) := by
  induction levels generalizing t emitted with
  | zero =>
    refine ⟨.nil, fun p e hfirst d hd => ?_, by simp [drillTuple]⟩
    have hnone := hlevels p e hfirst
    have hchild := levelsUnder_child hg (ht e hfirst.mem) hd
    omega
  | succ levels ih =>
    rw [drillTuple]
    split
    · rename_i hnone
      refine ⟨.nil, fun p e hfirst => ?_, by simp⟩
      rw [hfirst.findIdx?] at hnone
      cases hnone
    · rename_i p hp
      obtain ⟨e, hfirst⟩ := FirstTarget.of_findIdx? hp
      rw [hfirst.at_position]
      have hfurther (emitted : TupleSet) (child : Element) (hchild : child ∈ ctx.childrenOf e) :
          ctx.ChildDrilled targets recursive present emitted t p child
            (if recursive && targets.contains child then ctx.drillTuple targets present recursive
              levels (emitted ++ [t.set p child]) (t.set p child) else []) := by
        have he := ht e hfirst.mem
        refine ⟨fun hflag htarget => ?_, fun hstops => if_neg (by simpa using hstops)⟩
        rw [if_pos (by simp [hflag, htarget])]
        refine ih (ht.replace (childrenOf_has hg he child hchild) p) (fun q x hq => ?_) _
        obtain ⟨-, rfl⟩ := hq.unique (hfirst.set htarget)
        have hlevel := hlevels p e hfirst
        have hbelow := levelsUnder_child hg he hchild
        omega
      obtain ⟨hfresh, hcomplete, hstems⟩ := drilled_childTuples
        (fun emitted u child =>
          if recursive && targets.contains child then
            ctx.drillTuple targets present recursive levels emitted u
          else [])
        hfirst hfurther emitted (List.Subset.refl _)
      refine ⟨hfresh, fun q x hq d hd => ?_, fun u hu => ?_⟩
      · obtain ⟨rfl, rfl⟩ := hq.unique hfirst
        exact hcomplete d hd
      · obtain ⟨d, hd⟩ := hstems u hu
        exact ⟨p, e, d, hfirst, hd⟩

/-! ### All blocks -/

/-- The blocks of a set, of which some tuples have had theirs before. -/
structure BlocksDrilled (ctx : Context) (targets : List Element) (recursive : Bool)
    (present emitted set : TupleSet) (blocks : List TupleSet) : Prop where
  fresh : Fresh present emitted blocks.flatten
  expanded : ∀ t ∈ set, ctx.Expanded targets (present ++ (emitted ++ blocks.flatten)) t
  stems : List.Forall₂ (fun t block => ∀ u ∈ block, ∃ p e d, FirstTarget targets t p e ∧
    ctx.Stems targets recursive (present ++ (emitted ++ blocks.flatten)) t p e u d) set blocks

/-- By induction on the set; what has been found for a tuple stays found. -/
theorem drilled_blocksOf (hg : Cube.Graph ctx.cube) {set : TupleSet} (hhas : ctx.HasSet set)
    (emitted : TupleSet) : ctx.BlocksDrilled targets recursive present emitted set
      (blocksOf (fun emitted t => ctx.drillTuple targets present recursive (ctx.levelsBelow t)
        emitted t) emitted set) := by
  induction set generalizing emitted with
  | nil => exact ⟨.nil, by simp, .nil⟩
  | cons t rest ih =>
    obtain ⟨ht, hrest⟩ := List.forall_mem_cons.1 hhas
    have hblock : ctx.Drilled targets recursive present emitted t
        (ctx.drillTuple targets present recursive (ctx.levelsBelow t) emitted t) :=
      drilled_drillTuple hg ht (fun p e hfirst => levelsUnder_le hfirst.mem) emitted
    rw [blocksOf]
    generalize ctx.drillTuple targets present recursive (ctx.levelsBelow t) emitted t = block
      at hblock ⊢
    obtain ⟨hfresh, hexpanded, hstems⟩ := ih hrest (emitted ++ block)
    generalize blocksOf _ (emitted ++ block) rest = blocks at hfresh hexpanded hstems ⊢
    have hsub : present ++ (emitted ++ block) ⊆
        present ++ (emitted ++ (block ++ blocks.flatten)) := by
      intro v hv
      rw [← List.append_assoc emitted, ← List.append_assoc]
      exact List.mem_append_left _ hv
    rw [List.append_assoc] at hexpanded hstems
    refine ⟨hblock.fresh.append hfresh,
      List.forall_mem_cons.2 ⟨hblock.expanded.mono hsub, hexpanded⟩,
      .cons (fun u hu => ?_) hstems⟩
    obtain ⟨p, e, d, hfirst, hd⟩ := hblock.stems u hu
    exact ⟨p, e, d, hfirst, hd.mono hsub⟩

/-- Whatever leads to a new tuple agrees on whether drilling goes on from it: if one way puts in a
target that has children, all put in targets. -/
def Unambiguous (ctx : Context) (targets : List Element) (set : TupleSet) : Prop :=
  ∀ t ∈ set, ∀ t' ∈ set, ∀ p e d p' e' d', FirstTarget targets t p e →
    ctx.PutsIn targets true e d → FirstTarget targets t' p' e' → ctx.PutsIn targets true e' d' →
    t.set p d = t'.set p' d' → t.set p d ∉ set → d ∈ targets → ctx.childrenOf d ≠ [] → d' ∈ targets

/-- Everything that drilling leads to is found, also where it is passed over on the way: either it
is in the set and has its own block, or it has been drilled where it was emitted. -/
theorem BlocksDrilled.complete (hg : Cube.Graph ctx.cube) {set : TupleSet}
    {blocks : List TupleSet} (hhas : ctx.HasSet set)
    (h : ctx.BlocksDrilled targets recursive set [] set blocks)
    (hsame : recursive = true → ctx.Unambiguous targets set) (ht : t ∈ set)
    (hfirst : FirstTarget targets t p e) (hd : ctx.DrillsTo targets recursive e d) :
    t.set p d ∈ set ++ blocks.flatten := by
  have hself : t.set p e = t := by
    obtain ⟨hlt, hat⟩ := List.getElem?_eq_some_iff.1 hfirst.at_position
    rw [← hat]
    exact List.set_getElem_self hlt
  obtain ⟨x, hx, hd⟩ := hd
  have hexpanded : FirstTarget targets (t.set p x) p x ∧
      ctx.Expanded targets (set ++ blocks.flatten) (t.set p x) := by
    clear hd
    induction hx with
    | refl =>
      rw [hself]
      exact ⟨hfirst, h.expanded t ht⟩
    | @tail x y hx hstep ih =>
      obtain ⟨hflag, htarget, hy⟩ := hstep
      have hfound := ih.2 p x ih.1 y hy
      rw [List.set_set] at hfound
      refine ⟨hfirst.set htarget, ?_⟩
      by_cases hold : t.set p y ∈ set
      · exact h.expanded _ hold
      · -- It may have been emitted for another tuple of the set, and at another position.
        obtain ⟨block, hblock, hu⟩ :=
          List.mem_flatten.1 ((List.mem_append.1 hfound).resolve_left hold)
        obtain ⟨t', ht', hstems⟩ := exists_of_forall₂ h.stems hblock
        obtain ⟨p', e', d', hfirst', hd'⟩ := hstems _ hu
        -- Without children there is nothing to go on to.
        by_cases hnone : ctx.childrenOf y = []
        · intro q z hq d hd
          obtain ⟨-, rfl⟩ := hq.unique (hfirst.set htarget)
          rw [hnone] at hd
          cases hd
        · subst hflag
          have hputs := (drillsTo_iff hg (hhas t ht e hfirst.mem)).1 ⟨x, hx, hy⟩
          have hputs' := (drillsTo_iff hg (hhas t' ht' e' hfirst'.mem)).1 hd'.drills
          exact hd'.expanded rfl (hsame rfl t ht t' ht' p e y p' e' d' hfirst hputs hfirst' hputs'
            hd'.eq_set hold htarget hnone)
  have hfound := hexpanded.2 p x hexpanded.1 d hd
  rwa [List.set_set] at hfound

/-- The new tuples of a set are those that drilling leads to. -/
theorem BlocksDrilled.mem_iff (hg : Cube.Graph ctx.cube) {set : TupleSet} {blocks : List TupleSet}
    (hhas : ctx.HasSet set) (h : ctx.BlocksDrilled targets recursive set [] set blocks)
    (hsame : recursive = true → ctx.Unambiguous targets set) (hnew : u ∉ set) :
    u ∈ blocks.flatten ↔ ∃ t ∈ set, ∃ p e d, FirstTarget targets t p e ∧ u = t.set p d ∧
      ctx.PutsIn targets recursive e d := by
  constructor
  · intro hu
    obtain ⟨block, hblock, hu⟩ := List.mem_flatten.1 hu
    obtain ⟨t, ht, hstems⟩ := exists_of_forall₂ h.stems hblock
    obtain ⟨p, e, d, hfirst, hd⟩ := hstems u hu
    have hputs := (drillsTo_iff hg (hhas t ht e hfirst.mem)).1 hd.drills
    exact ⟨t, ht, p, e, d, hfirst, hd.eq_set, hputs⟩
  · rintro ⟨t, ht, p, e, d, hfirst, rfl, hd⟩
    have hdrills := (drillsTo_iff hg (hhas t ht e hfirst.mem)).2 hd
    exact (List.mem_append.1 (h.complete hg hhas hsame ht hfirst hdrills)).resolve_left hnew

theorem unambiguous_of_position {set : TupleSet}
    (hat : ∀ t ∈ set, ∀ q e, FirstTarget targets t q e → q = p) :
    ctx.Unambiguous targets set := by
  intro t ht t' ht' q e d q' e' d' hfirst _ hfirst' _ heq _ hd _
  obtain rfl : q = q' := (hat t ht q e hfirst).trans (hat t' ht' q' e' hfirst').symm
  have hsame := congrArg (·[q]?) heq
  simp only [List.getElem?_set_self hfirst.lt_length, List.getElem?_set_self hfirst'.lt_length,
    Option.some.injEq] at hsame
  exact hsame ▸ hd

/-- Targets on one facet are at one position of all tuples. -/
theorem unambiguous_of_facet {set : TupleSet} {f : Facet} (huniform : ctx.Uniform set)
    (hfacet : ∀ e ∈ targets, ctx.facetOf e = f) : ctx.Unambiguous targets set := by
  obtain ⟨fs, hnodup, hspans⟩ := huniform
  have hat (t : Tuple) (ht : t ∈ set) (q : Nat) (e : Element) (hfirst : FirstTarget targets t q e) :
      fs[q]? = some f := by
    rw [← hspans t ht, facets, List.getElem?_map, hfirst.at_position, Option.map_some,
      hfacet e hfirst.target]
  refine unambiguous_of_position (p := fs.idxOf f) fun t ht q e hfirst => ?_
  obtain ⟨hlt, rfl⟩ := List.getElem?_eq_some_iff.1 (hat t ht q e hfirst)
  exact (hnodup.idxOf_getElem q hlt).symm

/-- Each tuple of a set is followed by its block. The blocks hold new tuples only, each once: those
in which the first target has been replaced by a child, or with recursion by anything below it with
nothing but targets between them. -/
theorem drilldownMember_blocks {layout : CubeLayout} {catalog : Catalog} {c : Cube}
    (hbuild : Cube.build layout catalog = .ok c) {s : Scope} {set : TupleSet}
    (hhas : HasSet ⟨c, s⟩ set) (huniform : Uniform ⟨c, s⟩ set) (targets : TupleSet)
    {recursive : Bool}
    (hone : recursive = true → ∃ f, ∀ e ∈ targets.flatten, facetOf ⟨c, s⟩ e = f) :
    ∃ blocks,
      drilldownMember ⟨c, s⟩ set targets recursive = (set.zipWith List.cons blocks).flatten ∧
      List.Forall₂ (fun t block => ∀ u ∈ block, ∃ p e d, FirstTarget targets.flatten t p e ∧
        Descends ⟨c, s⟩ e d ∧ u = t.set p d) set blocks ∧
      (∀ u ∈ blocks.flatten, u ∉ set) ∧ blocks.flatten.Nodup ∧
      ∀ u, u ∉ set → (u ∈ blocks.flatten ↔ ∃ t ∈ set, ∃ p e d,
        FirstTarget targets.flatten t p e ∧ u = t.set p d ∧
          PutsIn ⟨c, s⟩ targets.flatten recursive e d) := by
  have hg : Cube.Graph (Context.mk c s).cube := (Cube.built_of_build hbuild).graph
  have h : BlocksDrilled ⟨c, s⟩ targets.flatten recursive set [] set _ :=
    drilled_blocksOf hg hhas []
  have hsame (hflag : recursive = true) : Unambiguous ⟨c, s⟩ targets.flatten set := by
    obtain ⟨f, hf⟩ := hone hflag
    exact unambiguous_of_facet huniform hf
  refine ⟨_, interleave_eq _ _ _, h.stems.imp fun t block hstems u hu => ?_, h.fresh.absent,
    h.fresh.nodup, fun u hu => h.mem_iff hg hhas hsame hu⟩
  obtain ⟨p, e, d, hfirst, hd⟩ := hstems u hu
  exact ⟨p, e, d, hfirst, hd.drills.descends, hd.eq_set⟩

theorem drilldownMember_blocks_sample :
    let ctx : Context := ⟨Sample.cube, .empty⟩
    ctx.HasSet [[.member ⟨0⟩]] ∧ ctx.Uniform [[.member ⟨0⟩]] ∧ ∃ blocks,
      ctx.drilldownMember [[.member ⟨0⟩]] [[.member ⟨0⟩]] true =
        (([[.member ⟨0⟩]] : TupleSet).zipWith List.cons blocks).flatten ∧
      ([.member ⟨1⟩] : Tuple) ∈ blocks.flatten := by
  intro ctx
  have hg := (Cube.built_of_build Sample.build_eq_cube).graph
  have hall : ctx.Has (.member ⟨0⟩) := show 0 < Sample.cube.members.size by decide
  have hrome : Element.member ⟨1⟩ ∈ ctx.childrenOf (.member ⟨0⟩) := by decide
  have hhas : ctx.HasSet [[.member ⟨0⟩]] := hasSet_singleton hall
  have huniform : ctx.Uniform [[.member ⟨0⟩]] := uniform_singleton _
  have hone (_ : true = true) : ∃ f, ∀ e ∈ [Element.member ⟨0⟩], ctx.facetOf e = f :=
    ⟨.hierarchy ⟨0⟩, by decide⟩
  have hputs : ctx.PutsIn [.member ⟨0⟩] true (.member ⟨0⟩) (.member ⟨1⟩) :=
    (drillsTo_iff hg hall).1 ⟨_, .refl, hrome⟩
  obtain ⟨blocks, hblocks, -, -, -, hmem⟩ :=
    drilldownMember_blocks Sample.build_eq_cube hhas huniform [[.member ⟨0⟩]] hone
  refine ⟨hhas, huniform, blocks, hblocks, (hmem _ (by decide)).2 ?_⟩
  exact ⟨_, List.mem_cons_self, 0, _, _, ⟨rfl, by decide, by simp⟩, rfl, hputs⟩

end Context

end CubeQuery
