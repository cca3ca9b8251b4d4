import CubeQuery.Proofs.Query.Precedence

/-!
Names in any case. Some look-ups fold all letters of a whole path, others only A to Z and name by
name; captions are first compared as they are written. In a cube whose names are not told apart by
case alone they all answer alike for two spellings of a path, so that a name denotes the same in
either of them.
-/

namespace CubeQuery

open CubeQuery.Language Noted Text

/-- The two lists of names differ at most in the case of A to Z, name by name. -/
abbrev SpelledAlike (names names' : List String) : Prop :=
  List.Forall₂ (fun a b => sameName a b = true) names names'

theorem sameName_congr {a b : String} (h : sameName a b = true) (other : String) :
    sameName other a = sameName other b := by
  rw [sameName, sameName, sameName_iff.1 h]

namespace SpelledAlike

variable {names names' : List String}

theorem eq_nil_iff (h : SpelledAlike names names') : names = [] ↔ names' = [] := by
  cases h with
  | nil => rfl
  | cons _ _ => exact iff_of_false (List.cons_ne_nil _ _) (List.cons_ne_nil _ _)

/-- The paths of such names agree where all letters are folded. -/
theorem lowercase_eq (h : SpelledAlike names names') :
    lowercase (bracketedPath names) = lowercase (bracketedPath names') := by
  rw [lowercase_bracketedPath, lowercase_bracketedPath]
  refine congrArg bracketedPath ?_
  induction h with
  | nil => rfl
  | cons hname _ ih => rw [List.map_cons, List.map_cons, lowercase_eq_of_sameName hname, ih]

end SpelledAlike

namespace Cube

/-- No two objects of the cube are told apart by the case of their unique names alone, and no two
captions of one level by the case of A to Z. -/
structure CaseClear (c : Cube) : Prop where
  names : ∀ e e', c.Has e → c.Has e' →
    lowercase (c.uniqueName e) = lowercase (c.uniqueName e') → e = e'
  captions : ∀ l, c.Has (.level l) → ∀ m ∈ (c.level l).members, ∀ m' ∈ (c.level l).members,
    sameName (c.member m).caption (c.member m').caption = true →
      (c.member m).caption = (c.member m').caption

variable {c : Cube} {h : HierarchyId} {m : MemberId} {ids : List MemberId} {a b : String}
  {names names' : List String}

/-! ### Look-ups of one name -/

theorem dimensionByName?_congr (hab : sameName a b = true) :
    c.dimensionByName? a = c.dimensionByName? b := by
  simp only [dimensionByName?, sameName_congr hab]

theorem measureByName?_congr (hab : sameName a b = true) :
    c.measureByName? a = c.measureByName? b := by
  simp only [measureByName?, sameName_congr hab]

/-- Where all letters are folded, one object at most answers to a name, and it does so in any
case. -/
theorem CaseClear.find?_congr (hc : CaseClear c) (hf : Findable c)
    (hab : lowercase a = lowercase b) : c.find? a = c.find? b := by
  cases ha : c.find? a with
  | none =>
    refine (hf.coherent.named.find?_eq_none fun e he => ?_).symm
    rw [← hab]
    exact hf.folded.lowercase_ne hf.coherent.named ha (mem_entities.1 he)
  | some e =>
    have he := find?_has hf.coherent.named ha
    have hname := lowercase_of_find? hf.coherent.named ha
    cases hb : c.find? b with
    | none => exact absurd (hname.trans hab) (hf.folded.lowercase_ne hf.coherent.named hb he)
    | some e' =>
      have he' := find?_has hf.coherent.named hb
      have hname' := lowercase_of_find? hf.coherent.named hb
      rw [hc.names e e' he he' (hname.trans (hab.trans hname'.symm))]

/-- The captions of these members are not told apart by the case of A to Z alone. -/
def CaptionsClear (c : Cube) (ids : List MemberId) : Prop :=
  ∀ m ∈ ids, ∀ m' ∈ ids, sameName (c.member m).caption (c.member m').caption = true →
    (c.member m).caption = (c.member m').caption

/-- A caption that is met as it is written is met nowhere in another case, so that looking for it as
it is written first makes no difference. -/
theorem matchCaption?_eq (hids : CaptionsClear c ids) (a : String) :
    c.matchCaption? ids a = ids.find? fun m => sameName (c.member m).caption a := by
  rw [matchCaption?]
  cases hexact : ids.find? fun m => (c.member m).caption == a with
  | none => rfl
  | some m =>
    have hm := List.mem_of_find?_eq_some hexact
    have hsame := List.find?_some hexact
    have hcaption := beq_iff_eq.1 hsame
    rw [Option.some_or, ← hexact]
    refine List.find?_congr fun m' hm' => ?_
    rw [Bool.eq_iff_iff, beq_iff_eq, ← hcaption]
    refine ⟨fun hsame => ?_, hids m' hm' m hm⟩
    rw [hsame]
    exact sameName_refl _

theorem matchCaption?_congr (hids : CaptionsClear c ids) (hab : sameName a b = true) :
    c.matchCaption? ids a = c.matchCaption? ids b := by
  rw [matchCaption?_eq hids, matchCaption?_eq hids]
  simp only [sameName_congr hab]

/-- The children of a member are members of one level. -/
theorem CaseClear.children (hc : CaseClear c) (hg : Graph c) (hm : c.Has (.member m)) :
    CaptionsClear c (c.memberChildren m) := by
  intro d hd d' hd' hsame
  obtain ⟨hhas, hhierarchy, hdepth⟩ := hg.memberChildren_below hm hd
  obtain ⟨hhas', hhierarchy', hdepth'⟩ := hg.memberChildren_below hm hd'
  obtain ⟨hlevel, hon⟩ := hg.member_level d hhas
  obtain ⟨hlevel', hon'⟩ := hg.member_level d' hhas'
  have hlevels : (c.member d).level = (c.member d').level :=
    hg.level_ext hlevel hlevel' (by rw [hon, hon', hhierarchy, hhierarchy'])
      (hdepth.trans hdepth'.symm)
  refine hc.captions _ hlevel d (hg.mem_members hhas) d' ?_ hsame
  rw [hlevels]
  exact hg.mem_members hhas'

/-! ### Names below a dimension -/

/-- By induction on the captions; each step is to a child, and the children of the member reached
are those of the other spelling. -/
theorem CaseClear.walk?_congr (hc : CaseClear c) (hg : Graph c) (hm : c.Has (.member m))
    (hnames : SpelledAlike names names') : c.walk? m names = c.walk? m names' := by
  induction hnames generalizing m with
  | nil => rfl
  | cons hname _ ih =>
    rw [walk?, walk?, matchCaption?_congr (hc.children hg hm) hname]
    refine Option.bind_congr fun child hchild => ih ?_
    exact ((hg.mem_memberChildren hm).1 (matchCaption?_mem hchild)).1

theorem CaseClear.walkFromAll?_congr (hc : CaseClear c) (hg : Graph c) (hm : c.Has (.member m))
    (hnames : SpelledAlike names names') : c.walkFromAll? m names = c.walkFromAll? m names' := by
  cases hnames with
  | nil => rfl
  | cons hname hrest =>
    rw [walkFromAll?, walkFromAll?, sameName_congr hname, hc.walk?_congr hg hm hrest,
      hc.walk?_congr hg hm (.cons hname hrest)]

theorem CaseClear.resolveBelow?_congr (hc : CaseClear c) (hg : Graph c)
    (hh : c.Has (.hierarchy h)) (hnames : SpelledAlike names names') :
    c.resolveBelow? h names = c.resolveBelow? h names' := by
  obtain ⟨hall, -⟩ := hg.allMember hh
  cases hnames with
  | nil => rfl
  | @cons first first' rest rest' hname hrest =>
    have hwalk := hc.walkFromAll?_congr hg hall hrest
    simp only [resolveBelow?, sameName_congr hname, SpelledAlike.eq_nil_iff hrest, hwalk,
      hc.walkFromAll?_congr hg hall (.cons hname hrest)]
    cases hlevel : (c.hierarchy h).levels.find? fun l => sameName (c.level l).name first' with
    | none => rfl
    | some l =>
      obtain ⟨i, hi⟩ := List.mem_iff_getElem?.1 (List.mem_of_find?_eq_some hlevel)
      have hl := ((hg.levels_at h hh l i).1 hi).1
      have hclear : CaptionsClear c (c.level l).members.toList := fun m hm m' hm' =>
        hc.captions l hl m (Array.mem_toList_iff.1 hm) m' (Array.mem_toList_iff.1 hm')
      cases hrest with
      | nil => rfl
      | cons hsecond hthird =>
        cases hthird with
        | nil => simp only [matchCaption?_congr hclear hsecond, List.cons_ne_nil]
        | cons _ _ => rfl

theorem CaseClear.resolveInDimension?_congr (hc : CaseClear c) (hg : Graph c) {d : DimensionId}
    (hd : c.Has (.dimension d)) (hnames : SpelledAlike names names') :
    c.resolveInDimension? d names = c.resolveInDimension? d names' := by
  have hhas (h : HierarchyId) (hh : h ∈ (c.dimension d).hierarchies) : c.Has (.hierarchy h) :=
    @Context.dimension_hierarchy_has ⟨c, .empty⟩ hg d h hd hh
  have hbelow {names names' : List String} (hnames : SpelledAlike names names') :
      ∀ h ∈ (c.dimension d).hierarchies, c.resolveBelow? h names = c.resolveBelow? h names' :=
    fun h hh => hc.resolveBelow?_congr hg (hhas h hh) hnames
  cases hnames with
  | nil => rfl
  | @cons first first' rest rest' hname hrest =>
    rw [resolveInDimension?, resolveInDimension?]
    simp only [sameName_congr hname, SpelledAlike.eq_nil_iff hrest]
    refine congrArg₂ Option.or (Option.bind_congr fun h hh => ?_) ?_
    · rw [hbelow hrest h (List.mem_of_find?_eq_some hh)]
    · rw [← List.head?_filterMap, ← List.head?_filterMap,
        List.filterMap_congr (hbelow (.cons hname hrest))]

theorem resolveMeasure?_congr (hnames : SpelledAlike names names') :
    c.resolveMeasure? names = c.resolveMeasure? names' := by
  cases hnames with
  | nil => rfl
  | cons hname hrest =>
    cases hrest with
    | nil => rw [resolveMeasure?, resolveMeasure?, measureByName?_congr hname]
    | cons _ _ => rfl

end Cube

namespace Context

variable {ctx : Context} {p q : Path} {r : Referent}

/-! ### Whole names -/

theorem resolveShortened_congr (hc : Cube.CaseClear ctx.cube) (hg : Cube.Graph ctx.cube)
    (hpq : SpelledAlike p.segments q.segments) :
    (ctx.resolveShortened p).result = .ok r ↔ (ctx.resolveShortened q).result = .ok r := by
  have hfound := List.filterMap_congr fun h hh =>
    hc.resolveBelow?_congr hg (Cube.hierarchyIds_has hh) hpq
  rw [resolveShortened, resolveShortened, hfound]
  split
  · exact iff_of_false nofun nofun
  · rfl
  · rfl

/-- Of the ways in which an object of the cube is found, the same one is taken for both
spellings. -/
theorem resolveInCube_congr (hc : Cube.CaseClear ctx.cube) (hf : Cube.Findable ctx.cube)
    (hpq : SpelledAlike p.segments q.segments) :
    (ctx.resolveInCube p).result = .ok r ↔ (ctx.resolveInCube q).result = .ok r := by
  have hg := hf.coherent.graph
  have hshortened := resolveShortened_congr (r := r) hc hg hpq
  have hfind : ctx.cube.find? p.render = ctx.cube.find? q.render :=
    hc.find?_congr hf hpq.lowercase_eq
  unfold resolveInCube
  generalize p.segments = names, q.segments = names' at hpq
  cases hpq with
  | nil => exact iff_of_false nofun nofun
  | @cons first first' rest rest' hname hrest =>
    have hmeasures : sameName first "Measures" = sameName first' "Measures" := by
      rw [sameName_comm, sameName_congr hname, sameName_comm]
    simp only [hmeasures, hfind, Cube.resolveMeasure?_congr hrest,
      Cube.dimensionByName?_congr hname]
    by_cases hm : sameName first' "Measures" = true
    · simp only [hm, if_true]
      cases ctx.cube.resolveMeasure? rest' with
      | none => exact iff_of_false nofun nofun
      | some found => rfl
    · simp only [hm]
      cases ctx.cube.find? q.render with
      | some e => rfl
      | none =>
        cases hd : ctx.cube.dimensionByName? first' with
        | none => exact hshortened
        | some d =>
          simp only [hc.resolveInDimension?_congr hg (Cube.dimensionByName?_has hd) hrest]
          cases ctx.cube.resolveInDimension? d rest' with
          | none => exact iff_of_false nofun nofun
          | some found => rfl

/-- In a cube whose names are not told apart by case alone, a name denotes the same in any
spelling, or in none of them anything. -/
theorem resolve_caseless {layout : CubeLayout} {catalog : Catalog} {c : Cube}
    (hbuild : Cube.build layout catalog = .ok c) (hc : Cube.CaseClear c) (s : Scope) {p q : Path}
    (hpq : SpelledAlike p.segments q.segments) (r : Referent) :
    (resolve ⟨c, s⟩ p).result = .ok r ↔ (resolve ⟨c, s⟩ q).result = .ok r := by
  have hkey : Scope.nameKey p = Scope.nameKey q := hpq.lowercase_eq
  rw [resolve, resolve, Scope.findMember?, Scope.findMember?, Scope.findSet?, Scope.findSet?, hkey]
  split
  · rfl
  · rfl
  · exact resolveInCube_congr hc (Cube.findable_of_build hbuild) hpq

theorem resolve_caseless_rome : Cube.CaseClear Sample.cube ∧
    SpelledAlike ["Shop", "Rome"] ["sHOP", "rOme"] ∧
    (resolve ⟨Sample.cube, .empty⟩ ⟨["sHOP", "rOme"], 0⟩).result =
      .ok (.element (.member ⟨1⟩)) := by
  have hclear : Cube.CaseClear Sample.cube := by
    refine ⟨fun e e' he he' => ?_, fun l hl => ?_⟩
    · have hnames : ∀ e ∈ Sample.cube.entities, ∀ e' ∈ Sample.cube.entities,
          lowercase (Sample.cube.uniqueName e) = lowercase (Sample.cube.uniqueName e') →
            e = e' := by
        decide
      exact hnames e (Cube.mem_entities.2 he) e' (Cube.mem_entities.2 he')
    · have hsize : Sample.cube.levels.size = 2 := by decide
      obtain ⟨i⟩ := l
      have hi : i < 2 := hsize ▸ hl
      interval_cases i <;> decide
  have halike : SpelledAlike ["Shop", "Rome"] ["sHOP", "rOme"] :=
    .cons (by decide) (.cons (by decide) .nil)
  refine ⟨hclear, halike, ?_⟩
  rw [← resolve_caseless Sample.build_eq_cube hclear .empty (p := ⟨["Shop", "Rome"], 0⟩) halike,
    Sample.resolve_rome]
  rfl

end Context

end CubeQuery
