import CubeQuery.Proofs.Query.Declared
import CubeQuery.Proofs.Query.ReadBack

/-!
Names that calculated members take. A calculated member takes every name that is spelled like its
own, in any case, and no other. Since it may not be called like an object of the cube, no unique
name and no name of a measure is lost to it; other names of an object can be.
-/

namespace CubeQuery

open CubeQuery.Language Noted Text

namespace Context

variable {c : Cube} {s : Scope} {p : Path} {ds : List MemberDefinition}

/-! ### What definitions leave in scope -/

/-- The scope has the members of some definitions in their order, called by their paths, and no
sets. -/
structure DefinedBy (s : Scope) (ds : List MemberDefinition) : Prop where
  names : s.members.toList.map (·.uniqueName) = ds.map (·.path.render)
  sets : s.sets = #[]

theorem gives_declare_definedBy (h : DefinedBy s ds) (d : MemberDefinition) :
    (Scope.declare c s (.member d)).Gives fun s' => DefinedBy s' (ds ++ [d]) := by
  refine gives_bind (gives_declared_free d) fun m ⟨_, hname, _, _⟩ => gives_pure ⟨?_, h.sets⟩
  rw [Array.toList_push, List.map_append, h.names, List.map_append]
  simp [hname]

theorem gives_declareAll_definedBy (ds : List MemberDefinition) :
    ((ds.map Definition.member).foldlM (Scope.declare c) .empty).Gives
      fun s => DefinedBy s ds := by
  rw [List.foldlM_map]
  exact gives_foldlM_prefix (P := fun ds s => DefinedBy s ds) ⟨rfl, rfl⟩
    (fun _ _ d h => gives_declare_definedBy h d) ds

theorem gives_read_definedBy (h : DefinedBy s ds) (d : MemberDefinition) :
    (Scope.read c s (.member d)).Gives fun s' => DefinedBy s' ds :=
  gives_bind gives_true fun _ _ => gives_pure ⟨h.names, h.sets⟩

theorem definedBy_ofDefinitions
    (hs : (Scope.ofDefinitions c (ds.map .member)).result = .ok s) : DefinedBy s ds := by
  have hgives : (Scope.ofDefinitions c (ds.map .member)).Gives fun s => DefinedBy s ds := by
    refine gives_bind (gives_declareAll_definedBy ds) fun declared hdeclared => ?_
    refine gives_foldlM_mem (fun d hd s hs => ?_) hdeclared
    obtain ⟨d, -, rfl⟩ := List.mem_map.1 hd
    exact gives_read_definedBy hs d
  exact hgives s hs

/-! ### The search among the definitions -/

theorem DefinedBy.findMember?_eq (h : DefinedBy s ds) (p : Path) :
    s.findMember? p = ds.findIdx? fun d => Scope.nameKey d.path == Scope.nameKey p := by
  have hnames := congrArg (List.findIdx? fun name => lowercase name == Scope.nameKey p) h.names
  rw [List.findIdx?_map, List.findIdx?_map] at hnames
  exact hnames

theorem DefinedBy.findSet?_eq (h : DefinedBy s ds) (p : Path) : s.findSet? p = none := by
  rw [Scope.findSet?, h.sets]
  rfl

/-- No two definitions have names that agree in lower case. -/
theorem DefinedBy.apart (h : DefinedBy s ds) (ho : OwnKeys c s) :
    ds.Pairwise fun d d' => Scope.nameKey d.path ≠ Scope.nameKey d'.path := by
  have happart : (ds.map (·.path.render)).Pairwise fun x y => lowercase x ≠ lowercase y := by
    rw [← h.names, List.pairwise_map]
    exact ho.apart
  rwa [List.pairwise_map] at happart

theorem DefinedBy.free (h : DefinedBy s ds) (ho : OwnKeys c s) {d : MemberDefinition}
    (hd : d ∈ ds) : c.find? d.path.render = none := by
  have hname : d.path.render ∈ s.members.toList.map (·.uniqueName) :=
    h.names ▸ List.mem_map_of_mem hd
  obtain ⟨m, hm, heq⟩ := List.mem_map.1 hname
  rw [← heq]
  exact ho.free m (Array.mem_toList_iff.1 hm)

theorem resolve_of_other (h : DefinedBy s ds)
    (hother : ∀ d ∈ ds, Scope.nameKey d.path ≠ Scope.nameKey p) :
    resolve ⟨c, s⟩ p = resolve ⟨c, .empty⟩ p := by
  have hmember : s.findMember? p = none := by
    rw [h.findMember?_eq, List.findIdx?_eq_none_iff]
    exact fun d hd => beq_eq_false_iff_ne.2 (hother d hd)
  rw [resolve_empty, resolve, hmember, h.findSet?_eq]
  rfl

/-! ### Names of measures -/

theorem resolveBelow?_ne_measure {h : HierarchyId} {names : List String} {m : MeasureId} :
    c.resolveBelow? h names ≠ some (.element (.measure m)) := by
  intro hr
  cases names with
  | nil => cases hr
  | cons first rest =>
    rw [Cube.resolveBelow?] at hr
    dsimp only at hr
    split at hr
    · split at hr
      · cases hr
      · obtain ⟨_, -, heq⟩ := Option.map_eq_some_iff.1 hr
        cases heq
    · obtain ⟨_, -, heq⟩ := Option.map_eq_some_iff.1 hr
      cases heq

theorem resolveInDimension?_ne_measure {d : DimensionId} {names : List String} {m : MeasureId} :
    c.resolveInDimension? d names ≠ some (.element (.measure m)) := by
  intro hr
  cases names with
  | nil => cases hr
  | cons first rest =>
    rcases Option.or_eq_some_iff.1 hr with hthrough | ⟨-, hbelow⟩
    · obtain ⟨h, -, hrest⟩ := Option.bind_eq_some_iff.1 hthrough
      split at hrest
      · cases hrest
      · exact resolveBelow?_ne_measure hrest
    · obtain ⟨h, -, hrest⟩ := List.exists_of_findSome?_eq_some hbelow
      exact resolveBelow?_ne_measure hrest

theorem ofEntity_eq_measure {e : Entity} {m : MeasureId}
    (h : Referent.ofEntity e = .element (.measure m)) : e = .measure m := by
  cases e <;> cases h
  rfl

/-- A name of a measure is its unique name, in some case. -/
theorem nameKey_of_measure (hc : c.Coherent) {m : MeasureId}
    (h : FoundAs ⟨c, s⟩ p (.element (.measure m))) :
    lowercase (c.uniqueName (.measure m)) = Scope.nameKey p := by
  cases h with
  | @measure first rest _ hsegments hmeasures hfound =>
    match rest with
    | [] => cases hfound
    | [name] =>
      obtain ⟨found, hname, heq⟩ := Option.map_eq_some_iff.1 hfound
      obtain rfl : found = m := by simpa using heq
      have hhas := Cube.measureByName?_has hname
      have hsame := Cube.sameName_of_measureByName? hname
      rw [hc.uniqueName_eq hhas, Scope.nameKey, Path.render, hsegments, lowercase_bracketedPath,
        lowercase_bracketedPath, Cube.title]
      simp only [List.map_cons, List.map_nil, lowercase_eq_of_sameName hmeasures,
        lowercase_eq_of_sameName hsame]
    | _ :: _ :: _ => cases hfound
  | uniqueName hfound hobject =>
    obtain rfl := ofEntity_eq_measure hobject
    exact Cube.lowercase_of_find? hc.named hfound
  | inDimension _ _ _ hfound => exact absurd hfound resolveInDimension?_ne_measure
  | shortened _ _ _ hfound =>
    obtain ⟨h, -, hbelow⟩ := List.exists_of_findSome?_eq_some hfound
    exact absurd hbelow resolveBelow?_ne_measure

end Context

/-! ### A member that takes a name of Rome -/

namespace Sample

/-- A member below the All member, called like Rome when the level is left out. -/
def otherRome : MemberDefinition where
  path := ⟨["Shop", "Rome"], 0⟩
  expr := .number 1.0
  format? := none
  solveOrder := 0

def otherRomeMember : CalculatedMember :=
  ⟨"Rome", "[Shop].[Rome]", .hierarchy ⟨0⟩, some ⟨0⟩, none, 0⟩

def otherRomeScope : Scope := ⟨#[otherRomeMember], #[.number 1.0], #[]⟩

theorem declared_otherRome :
    (Context.declared ⟨cube, .empty⟩ otherRome).result = .ok otherRomeMember := by
  have hrender : otherRome.path.render = "[Shop].[Rome]" := by decide
  have hhas : cube.Has (.dimension ⟨0⟩) := show 0 < cube.dimensions.size by decide
  have hresolve : Context.resolve ⟨cube, .empty⟩ ⟨["Shop"], 0⟩ = pure (.dimension ⟨0⟩) :=
    resolve_uniqueName rfl (by decide) hhas rfl rfl
  have hfree : Context.nameTaken ⟨cube, .empty⟩ otherRome.path "Rome" (.hierarchy ⟨0⟩) = false :=
    Context.nameTaken_eq_false named rfl (by decide) (by decide)
  have hsegments : otherRome.path.segments = ["Shop"] ++ ["Rome"] := rfl
  exact Context.declared_eq_ok hsegments (List.cons_ne_nil _ _) hrender hresolve rfl hfree

theorem ofDefinitions_otherRome :
    (Scope.ofDefinitions cube [.member otherRome]).result = .ok otherRomeScope := by
  rw [Scope.ofDefinitions, result_bind, Context.foldlM_declare_member declared_otherRome]
  rfl

theorem resolve_rome :
    Context.resolve ⟨cube, .empty⟩ ⟨["Shop", "Rome"], 0⟩ = pure (.element (.member ⟨1⟩)) :=
  resolve_inDimension rfl (by decide) (by decide)

end Sample

namespace Context

/-! ### What names denote beside definitions -/

/-- A calculated member takes the names that are spelled like its own, and every other name keeps
what it denotes in the cube. Among those that keep it are all unique names and all names of
measures. -/
theorem resolve_beside_members {layout : CubeLayout} {catalog : Catalog} {c : Cube}
    (hbuild : Cube.build layout catalog = .ok c) {ds : List MemberDefinition} {s : Scope}
    (hscope : (Scope.ofDefinitions c (ds.map .member)).result = .ok s) (p : Path) :
    ((∀ d ∈ ds, Scope.nameKey d.path ≠ Scope.nameKey p) →
      resolve ⟨c, s⟩ p = resolve ⟨c, .empty⟩ p) ∧
    (∀ i (hi : i < ds.length), Scope.nameKey ds[i].path = Scope.nameKey p →
      resolve ⟨c, s⟩ p = pure (.element (.calculated i))) ∧
    (∀ e, c.Has e → lowercase (c.uniqueName e) = Scope.nameKey p →
      resolve ⟨c, s⟩ p = resolve ⟨c, .empty⟩ p) ∧
    (∀ m, (resolve ⟨c, .empty⟩ p).result = .ok (.element (.measure m)) →
      resolve ⟨c, s⟩ p = resolve ⟨c, .empty⟩ p) := by
  have hf := Cube.findable_of_build hbuild
  have ho := ownKeys_ofDefinitions hscope
  have hby := definedBy_ofDefinitions hscope
  have hunique (e : Entity) (he : c.Has e) (hkey : lowercase (c.uniqueName e) = Scope.nameKey p) :
      resolve ⟨c, s⟩ p = resolve ⟨c, .empty⟩ p := by
    refine resolve_of_other hby fun d hd hsame => ?_
    exact hf.folded.lowercase_ne hf.coherent.named (hby.free ho hd) he (hkey.trans hsame.symm)
  refine ⟨resolve_of_other hby, fun i hi hkey => ?_, hunique, fun m hm => ?_⟩
  · have hfound : s.findMember? p = some i := by
      rw [hby.findMember?_eq, List.findIdx?_eq_some_iff_getElem]
      refine ⟨hi, beq_iff_eq.2 hkey, fun j hj hother => ?_⟩
      exact List.pairwise_iff_getElem.1 (hby.apart ho) j i (by omega) hi hj
        ((beq_iff_eq.1 hother).trans hkey.symm)
    rw [resolve, hfound]
  · have hhas : c.Has (.measure m) := gives_resolve hf.coherent.graph hf.coherent.named p _ hm
    rw [resolve_empty] at hm
    exact hunique _ hhas (nameKey_of_measure hf.coherent (foundAs_of_resolveInCube hm))

theorem resolve_beside_otherRome :
    resolve ⟨Sample.cube, Sample.otherRomeScope⟩ ⟨["Shop", "Rome"], 0⟩ =
        pure (.element (.calculated 0)) ∧
      resolve ⟨Sample.cube, Sample.otherRomeScope⟩ ⟨["shop", "SHOP", "city", "rome"], 0⟩ =
        resolve ⟨Sample.cube, .empty⟩ ⟨["shop", "SHOP", "city", "rome"], 0⟩ := by
  have hrome : Sample.cube.Has (.member ⟨1⟩) := by
    show 1 < Sample.cube.members.size
    decide
  have hscope : (Scope.ofDefinitions Sample.cube ([Sample.otherRome].map .member)).result =
      .ok Sample.otherRomeScope := Sample.ofDefinitions_otherRome
  obtain ⟨-, htaken, -⟩ :=
    resolve_beside_members Sample.build_eq_cube hscope ⟨["Shop", "Rome"], 0⟩
  obtain ⟨-, -, hunique, -⟩ :=
    resolve_beside_members Sample.build_eq_cube hscope ⟨["shop", "SHOP", "city", "rome"], 0⟩
  exact ⟨htaken 0 Nat.zero_lt_one rfl, hunique _ hrome (by decide)⟩

/-- The name of Rome without its level is no unique name, so that it is lost to a definition. -/
theorem rome_shadowed : Cube.build Sample.layout Sample.catalog = .ok Sample.cube ∧
    (Scope.ofDefinitions Sample.cube [.member Sample.otherRome]).result =
      .ok Sample.otherRomeScope ∧
    (resolve ⟨Sample.cube, .empty⟩ ⟨["Shop", "Rome"], 0⟩).result = .ok (.element (.member ⟨1⟩)) ∧
    (resolve ⟨Sample.cube, Sample.otherRomeScope⟩ ⟨["Shop", "Rome"], 0⟩).result ≠
      .ok (.element (.member ⟨1⟩)) := by
  refine ⟨Sample.build_eq_cube, Sample.ofDefinitions_otherRome, ?_, ?_⟩
  · rw [Sample.resolve_rome]
    rfl
  · have hfound : Sample.otherRomeScope.findMember? ⟨["Shop", "Rome"], 0⟩ = some 0 := by
      decide
    rw [resolve, hfound]
    intro heq
    cases heq

end Context

end CubeQuery
