import CubeQuery.Proofs.Cube.Finding
import CubeQuery.Proofs.Query.Known
import CubeQuery.Proofs.Text.Folding

/-!
How a name of the cube is found. It is a measure, a unique name in some case, a name below a
dimension, or a shortened name; a member that is found by captions is the one whose captions from
the top level down they are, whatever their case.
-/

namespace CubeQuery

open CubeQuery.Language Text

namespace Cube

variable {c : Cube} {h : HierarchyId} {l : LevelId} {m found : MemberId} {captions : List String}

/-! ### Captions -/

theorem sameName_of_matchCaption? {ids : List MemberId} {caption : String}
    (hm : c.matchCaption? ids caption = some m) : sameName (c.member m).caption caption = true := by
  rcases Option.or_eq_some_iff.1 hm with hexact | ⟨-, hfolded⟩
  · have hsame := List.find?_some hexact
    rw [beq_iff_eq.1 hsame]
    exact sameName_refl caption
  · have hsame := List.find?_some hfolded
    exact hsame

/-- Below a member stand those whose captions continue its own. By induction on the captions that
are followed, each of which is one step down. -/
theorem walk?_captions (hc : Coherent c) (hm : c.Has (.member m))
    (hwalk : c.walk? m captions = some found) : c.Has (.member found) ∧
      (c.member found).hierarchy = (c.member m).hierarchy ∧
      (c.member found).captions.map lowercase =
        ((c.member m).captions ++ captions).map lowercase := by
  induction captions generalizing m with
  | nil =>
    obtain rfl := Option.some.inj hwalk
    exact ⟨hm, rfl, by rw [List.append_nil]⟩
  | cons caption rest ih =>
    obtain ⟨child, hchild, hrest⟩ := Option.bind_eq_some_iff.1 hwalk
    have hmem := matchCaption?_mem hchild
    obtain ⟨hhas, hsame, -⟩ := hc.graph.memberChildren_below hm hmem
    obtain ⟨-, hparent⟩ := (hc.graph.mem_memberChildren hm).1 hmem
    obtain ⟨hfound, hhierarchy, hcaptions⟩ := ih hhas hrest
    refine ⟨hfound, hhierarchy.trans hsame, ?_⟩
    have hcaption := lowercase_eq_of_sameName (sameName_of_matchCaption? hchild)
    rw [hcaptions, hc.content.captions child m hhas hparent]
    simp [hcaption]

/-- In some case, these are the captions from the top level down to the member, or the caption of
its All member and then these. -/
def CaptionPath (c : Cube) (m : MemberId) (names : List String) : Prop :=
  let all := (c.hierarchy (c.member m).hierarchy).allMember
  names.map lowercase = (c.member m).captions.map lowercase ∨
    names.map lowercase = ((c.member all).caption :: (c.member m).captions).map lowercase

theorem captionPath_of_walkFromAll? (hc : Coherent c) (hh : c.Has (.hierarchy h))
    {names : List String} (hwalk : c.walkFromAll? (c.hierarchy h).allMember names = some m) :
    c.Has (.member m) ∧ (c.member m).hierarchy = h ∧ c.CaptionPath m names := by
  obtain ⟨hall, hsame, hdepth⟩ := hc.graph.allMember hh
  have hnone := hc.content.no_captions _ hall ((hc.graph.parent?_eq_none_iff hall).2 hdepth)
  have hwalked {rest : List String}
      (hrest : c.walk? (c.hierarchy h).allMember rest = some m) : c.Has (.member m) ∧
        (c.member m).hierarchy = h ∧ (c.member m).captions.map lowercase = rest.map lowercase := by
    obtain ⟨hm, hhierarchy, hcaptions⟩ := walk?_captions hc hall hrest
    rw [hnone, List.nil_append] at hcaptions
    exact ⟨hm, hhierarchy.trans hsame, hcaptions⟩
  cases names with
  | nil =>
    obtain ⟨hm, hhierarchy, hcaptions⟩ := @hwalked [] hwalk
    exact ⟨hm, hhierarchy, .inl hcaptions.symm⟩
  | cons first rest =>
    rw [walkFromAll?] at hwalk
    split at hwalk
    · rename_i hfirst
      obtain ⟨hm, hhierarchy, hcaptions⟩ := hwalked hwalk
      refine ⟨hm, hhierarchy, .inr ?_⟩
      rw [List.map_cons, List.map_cons, hcaptions, hhierarchy, lowercase_eq_of_sameName hfirst]
    · obtain ⟨hm, hhierarchy, hcaptions⟩ := hwalked hwalk
      exact ⟨hm, hhierarchy, .inl hcaptions.symm⟩

/-- A member stands on the level whose number is that of its captions. -/
theorem Coherent.depth_eq_length (hc : Coherent c) (hm : c.Has (.member m)) :
    c.depth m = (c.member m).captions.length := by
  generalize hn : c.depth m = n
  induction n generalizing m with
  | zero =>
    rw [hc.content.no_captions m hm ((hc.graph.parent?_eq_none_iff hm).2 hn)]
    rfl
  | succ n ih =>
    obtain ⟨p, hp⟩ := hc.graph.exists_parent hm (by omega)
    obtain ⟨hhas, -, hdepth⟩ := hc.graph.parent m p hm hp
    rw [hc.content.captions m p hm hp, List.length_append, ← ih hhas (by omega)]
    rfl

theorem sameName_of_measureByName? {name : String} {m : MeasureId}
    (hm : c.measureByName? name = some m) : sameName (c.measure m).name name = true := by
  obtain ⟨i, hi, rfl⟩ := Option.map_eq_some_iff.1 hm
  obtain ⟨hlt, hsame, -⟩ := List.findIdx?_eq_some_iff_getElem.1 hi
  have hget : c.measure ⟨i⟩ = c.measures.toList[i] := (Array.getElem_eq_getD _).symm
  rwa [hget]

/-! ### Unique names -/

theorem lowercase_of_find? (hn : Named c) {name : String} {e : Entity} (h : c.find? name = some e) :
    lowercase (c.uniqueName e) = lowercase name := by
  rcases Option.or_eq_some_iff.1 h with hexact | ⟨-, hfolded⟩
  · rw [((hn.names_iff name e).1 hexact).2]
  · exact (hn.folded _ e hfolded).2

/-- A path that is found is the title of the object, in some case. -/
theorem title_of_find? (hc : Coherent c) {names : List String} (hnames : names ≠ []) {e : Entity}
    (h : c.find? (bracketedPath names) = some e) :
    (c.title e).map lowercase = names.map lowercase := by
  have hfolded := lowercase_of_find? hc.named h
  rw [hc.uniqueName_eq (find?_has hc.named h)] at hfolded
  exact (lowercase_bracketedPath_inj Coherent.title_ne_nil hnames).1 hfolded

end Cube

namespace Context

variable {ctx : Context} {p : Path} {r : Referent}

/-- How a name denotes an object of the cube. What comes first in the search is looked for first. -/
inductive FoundAs (ctx : Context) (p : Path) : Referent → Prop
  | measure {first : String} {rest : List String} {r : Referent}
      (segments : p.segments = first :: rest) (measures : sameName first "Measures" = true)
      (found : ctx.cube.resolveMeasure? rest = some r) : FoundAs ctx p r
  | uniqueName {e : Entity} {r : Referent} (found : ctx.cube.find? p.render = some e)
      (object : .ofEntity e = r) : FoundAs ctx p r
  | inDimension {first : String} {rest : List String} {d : DimensionId} {r : Referent}
      (segments : p.segments = first :: rest) (free : ctx.cube.find? p.render = none)
      (dimension : ctx.cube.dimensionByName? first = some d)
      (found : ctx.cube.resolveInDimension? d rest = some r) : FoundAs ctx p r
  | shortened {first : String} {rest : List String} {r : Referent}
      (segments : p.segments = first :: rest) (free : ctx.cube.find? p.render = none)
      (noDimension : ctx.cube.dimensionByName? first = none)
      (found : ctx.cube.hierarchyIds.findSome?
        (fun h => ctx.cube.resolveBelow? h p.segments) = some r) : FoundAs ctx p r

theorem findSome?_of_resolveShortened (h : (ctx.resolveShortened p).result = .ok r) :
    ctx.cube.hierarchyIds.findSome? (fun h => ctx.cube.resolveBelow? h p.segments) = some r := by
  rw [← List.head?_filterMap]
  unfold resolveShortened at h
  split at h
  · cases h
  · rename_i heq
    obtain rfl := Except.ok.inj h
    rw [heq]
    rfl
  · rename_i heq
    rw [heq]
    exact congrArg some (Except.ok.inj h)

/-- The search has found what it returns in one of these ways. -/
theorem foundAs_of_resolveInCube (h : (ctx.resolveInCube p).result = .ok r) :
    ctx.FoundAs p r := by
  unfold resolveInCube at h
  split at h
  · cases h
  · rename_i first rest hsegments
    dsimp only at h
    split at h
    · rename_i hmeasures
      split at h
      · rename_i found hfound
        obtain rfl := Except.ok.inj h
        exact .measure hsegments hmeasures hfound
      · cases h
    · split at h
      · rename_i e he
        obtain rfl := Except.ok.inj h
        exact .uniqueName he rfl
      · rename_i hfree
        split at h
        · rename_i d hd
          split at h
          · rename_i found hfound
            obtain rfl := Except.ok.inj h
            exact .inDimension hsegments hfree hd hfound
          · cases h
        · rename_i hnone
          exact .shortened hsegments hfree hnone (findSome?_of_resolveShortened h)

theorem ofEntity_eq_member {e : Entity} {m : MemberId}
    (h : Referent.ofEntity e = .element (.member m)) : e = .member m := by
  cases e <;> cases h
  rfl

/-- Only measures are found among the measures. -/
theorem resolveMeasure?_ne_member {c : Cube} {names : List String} {m : MemberId} :
    c.resolveMeasure? names ≠ some (.element (.member m)) := by
  match names with
  | [] => nofun
  | [name] =>
    rw [Cube.resolveMeasure?, ne_eq, Option.map_eq_some_iff]
    rintro ⟨_, -, hsame⟩
    cases hsame
  | _ :: _ :: _ => nofun

/-- Without definitions, a name denotes what it denotes in the cube. -/
theorem resolve_empty {c : Cube} : resolve ⟨c, .empty⟩ p = resolveInCube ⟨c, .empty⟩ p := by
  rw [resolve]
  rfl

/-- A name that is no unique name is looked for below its dimension. -/
theorem resolveInCube_inDimension {first : String} {rest : List String} {d : DimensionId}
    (hsegments : p.segments = first :: rest) (hmeasures : sameName first "Measures" = false)
    (hfree : ctx.cube.find? p.render = none) (hd : ctx.cube.dimensionByName? first = some d)
    (hfound : ctx.cube.resolveInDimension? d rest = some r) : ctx.resolveInCube p = pure r := by
  simp only [resolveInCube, hsegments, hmeasures, hfree, hd, hfound]
  rfl

end Context

namespace Sample

theorem named : Cube.Named cube :=
  (Cube.built_of_build build_eq_cube).named

/-- A name of the sample cube that is found below its dimension. -/
theorem resolve_inDimension {p : Path} {rest : List String} {r : Referent}
    (hsegments : p.segments = "Shop" :: rest)
    (hfree : ∀ e ∈ cube.entities, lowercase (cube.uniqueName e) ≠ lowercase p.render)
    (hfound : cube.resolveInDimension? ⟨0⟩ rest = some r) :
    Context.resolve ⟨cube, .empty⟩ p = pure r := by
  have hmeasures : sameName "Shop" "Measures" = false := by decide
  have hd : cube.dimensionByName? "Shop" = some ⟨0⟩ := by decide
  rw [Context.resolve_empty]
  exact Context.resolveInCube_inDimension hsegments hmeasures (named.find?_eq_none hfree) hd hfound

end Sample

end CubeQuery
