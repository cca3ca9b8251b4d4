import CubeQuery.Proofs.Cube.Finding
import CubeQuery.Proofs.Language.RoundTrip
import CubeQuery.Proofs.Query.Calculation

/-!
Unique names read back. Clients send the unique names of an answer back in their next query, where
each has to denote the object that it was written for: the parser reads it as a path again, whatever
its segments contain, and the search for that path meets nothing else first.
-/

namespace CubeQuery

open CubeQuery.Language Noted

namespace Language

/-- A path between brackets reads back, at some position. -/
theorem ofText_bracketedPath {segments : List String} (hne : segments ≠ []) :
    ∃ p : Path, p.segments = segments ∧ Expr.ofText (bracketedPath segments) = .ok (.path p) := by
  have hreadable : Expr.Readable (.path ⟨segments, 0⟩) := .path hne
  obtain ⟨e, he, hsame⟩ := hreadable.ofText_render trivial (show 1 ≤ 128 by decide)
  cases e with
  | path p =>
    obtain ⟨hsegments, -⟩ := Path.mk.inj (Expr.path.inj hsame)
    exact ⟨p, hsegments, he⟩
  | _ => cases hsame

end Language

namespace Context

variable {ctx : Context} {c : Cube} {s s' : Scope}

/-! ### Keys of calculated members -/

/-- Calculated members are called by paths. No object of the cube has the name of one, and no two
names agree in lower case. -/
structure OwnKeys (c : Cube) (s : Scope) : Prop where
  spelled : ∀ m ∈ s.members, ∃ segments, segments ≠ [] ∧ m.uniqueName = bracketedPath segments
  free : ∀ m ∈ s.members, c.find? m.uniqueName = none
  apart : s.members.toList.Pairwise fun m m' =>
    Text.lowercase m.uniqueName ≠ Text.lowercase m'.uniqueName

theorem gives_declare_keys (h : OwnKeys c s) (d : Definition) :
    (Scope.declare c s d).Gives (OwnKeys c) := by
  cases d with
  | set d => exact gives_pure h
  | member d =>
    refine gives_bind (gives_declared_free d) fun m ⟨hne, hname, hmember, hobject⟩ =>
      gives_pure ⟨?_, ?_, ?_⟩
    · intro m' hm'
      rcases Array.mem_push.1 hm' with hold | rfl
      · exact h.spelled m' hold
      · exact ⟨d.path.segments, hne, hname⟩
    · intro m' hm'
      rcases Array.mem_push.1 hm' with hold | rfl
      · exact h.free m' hold
      · exact hobject
    · rw [Array.toList_push, List.pairwise_append]
      refine ⟨h.apart, List.pairwise_singleton _ _, fun m' hm' other hother => ?_⟩
      obtain rfl := List.mem_singleton.1 hother
      have hkey := List.findIdx?_eq_none_iff.1 hmember m' hm'
      rw [hname]
      exact fun heq => Bool.eq_false_iff.1 hkey (beq_iff_eq.2 heq)

theorem ownKeys_ofDefinitions {definitions : List Definition}
    (hs : (Scope.ofDefinitions c definitions).result = .ok s) : OwnKeys c s := by
  have hempty : OwnKeys c .empty := by constructor <;> simp [Scope.empty]
  have hgives : (Scope.ofDefinitions c definitions).Gives (OwnKeys c) := by
    refine gives_bind (gives_foldlM (fun _ d h => gives_declare_keys h d) definitions hempty)
      fun declared hdeclared => gives_foldlM (fun s d h => ?_) definitions hdeclared
    refine (gives_read_members d).mono fun s' hmembers => ⟨?_, ?_, ?_⟩
    · exact hmembers ▸ h.spelled
    · exact hmembers ▸ h.free
    · exact hmembers ▸ h.apart
  exact hgives s hs

/-! ### What a unique name denotes -/

/-- No named set is called like an object of the cube. Calculated members come before sets of the
same name, so that these need no such condition. -/
def SetsApart (ctx : Context) : Prop :=
  ∀ set ∈ ctx.scope.sets, ∀ e, ctx.cube.Has e →
    Text.lowercase set.uniqueName ≠ Text.lowercase (ctx.cube.uniqueName e)

theorem findMember?_eq_some (ho : OwnKeys c s) {i : Nat} (hi : i < s.members.size) {p : Path}
    (hp : p.render = (s.member i).uniqueName) : s.findMember? p = some i := by
  have hget : s.member i = s.members[i] := (Array.getElem_eq_getD _).symm
  rw [Scope.findMember?, List.findIdx?_eq_some_iff_getElem]
  refine ⟨by simpa using hi, ?_, fun j hj => ?_⟩
  · rw [Array.getElem_toList, Scope.nameKey, hp, hget, beq_self_eq_true]
  · -- Earlier members have other names, so the search goes past them.
    have hother := List.pairwise_iff_getElem.1 ho.apart j i (by simp; omega) (by simpa using hi) hj
    rw [Array.getElem_toList, Array.getElem_toList, ← hget] at hother
    rw [Array.getElem_toList, Scope.nameKey, hp, beq_iff_eq]
    exact hother

theorem findMember?_eq_none (hf : c.Findable) (ho : OwnKeys c s) {e : Entity} (he : c.Has e)
    {p : Path} (hp : p.render = c.uniqueName e) : s.findMember? p = none := by
  refine List.findIdx?_eq_none_iff.2 fun m hm => ?_
  have hfree := ho.free m (Array.mem_toList_iff.1 hm)
  rw [Scope.nameKey, hp, beq_eq_false_iff_ne]
  exact (hf.folded.lowercase_ne hf.coherent.named hfree he).symm

theorem findSet?_eq_none {p : Path}
    (h : ∀ set ∈ s.sets, Text.lowercase set.uniqueName ≠ Text.lowercase p.render) :
    s.findSet? p = none :=
  List.findIdx?_eq_none_iff.2 fun set hset =>
    beq_eq_false_iff_ne.2 (h set (Array.mem_toList_iff.1 hset))

theorem resolve_calculated (ho : OwnKeys ctx.cube ctx.scope) {i : Nat}
    (hi : i < ctx.scope.members.size) {p : Path}
    (hp : p.render = (ctx.scope.member i).uniqueName) :
    ctx.resolve p = pure (.element (.calculated i)) := by
  rw [resolve, findMember?_eq_some ho hi hp]

/-- A measure is found among the measures, everything else under its unique name. -/
theorem resolve_entity (hf : ctx.cube.Findable) (ho : OwnKeys ctx.cube ctx.scope)
    (hsets : ctx.SetsApart) {e : Entity} (he : ctx.cube.Has e) {p : Path}
    (hp : p.segments = ctx.cube.title e) : ctx.resolve p = pure (.ofEntity e) := by
  have hname : p.render = ctx.cube.uniqueName e := by
    rw [Path.render, hp, hf.coherent.uniqueName_eq he]
  have hset : ctx.scope.findSet? p = none :=
    findSet?_eq_none fun set hset => hname ▸ hsets set hset e he
  rw [resolve, findMember?_eq_none hf ho he hname, hset]
  by_cases hmeasure : ∃ m, e = .measure m
  · obtain ⟨m, rfl⟩ := hmeasure
    have hsegments : p.segments = ["Measures", (ctx.cube.measure m).name] := hp
    simp only [resolveInCube, hsegments, Text.sameName_refl, if_true, Cube.resolveMeasure?,
      hf.measureByName? he]
    rfl
  · -- No other name begins like those of the measures, so the search gets to unique names.
    obtain ⟨first, rest, htitle⟩ :=
      List.exists_cons_of_ne_nil (Cube.Coherent.title_ne_nil (c := ctx.cube) (e := e))
    have hhead : Text.sameName first "Measures" = false :=
      hf.head_reserved he (fun m heq => hmeasure ⟨m, heq⟩) htitle
    have hfound := hf.coherent.named.find?_uniqueName he
    rw [← hname] at hfound
    have hsegments : p.segments = first :: rest := hp.trans htitle
    simp only [resolveInCube, hsegments]
    rw [if_neg (Bool.eq_false_iff.1 hhead), hfound]

/-! ### Unique names read back -/

/-- Reading the text as a set gives these tuples. -/
inductive ReadsAs (ctx : Context) (text : String) (set : TupleSet) : Prop
  | intro (e : Expr) (parsed : Expr.ofText text = .ok e)
      (evaluated : (ctx.evalSet e).result = .ok set)

theorem reads_path {segments : List String} (hne : segments ≠ []) {r : Referent}
    (h : ∀ p : Path, p.segments = segments → ctx.resolve p = pure r) :
    ctx.ReadsAs (bracketedPath segments) (ctx.referredSet r) := by
  obtain ⟨p, hp, htext⟩ := ofText_bracketedPath hne
  refine ⟨.path p, htext, ?_⟩
  rw [evalSet, h p hp]
  rfl

theorem reads_entity (hf : ctx.cube.Findable) (ho : OwnKeys ctx.cube ctx.scope)
    (hsets : ctx.SetsApart) {e : Entity} (he : ctx.cube.Has e) :
    ctx.ReadsAs (ctx.cube.uniqueName e) (ctx.referredSet (.ofEntity e)) := by
  rw [hf.coherent.uniqueName_eq he]
  exact reads_path Cube.Coherent.title_ne_nil fun p hp => resolve_entity hf ho hsets he hp

theorem reads_calculated (ho : OwnKeys ctx.cube ctx.scope) {i : Nat}
    (hi : i < ctx.scope.members.size) :
    ctx.ReadsAs (ctx.scope.member i).uniqueName [[.calculated i]] := by
  obtain ⟨segments, hne, hname⟩ := ho.spelled _ (member_mem hi)
  rw [hname]
  refine reads_path hne (r := .element (.calculated i)) fun p hp => resolve_calculated ho hi ?_
  rw [hname, Path.render, hp]

/-- Unless a named set takes the name first, the unique name of a member denotes that member, that
of a level its members in order, and that of a dimension or hierarchy its All member. -/
theorem uniqueName_reads_back {layout : CubeLayout} {catalog : Catalog} {c : Cube}
    (hbuild : Cube.build layout catalog = .ok c) {definitions : List Definition} {s : Scope}
    (hscope : (Scope.ofDefinitions c definitions).result = .ok s) (hsets : SetsApart ⟨c, s⟩) :
    (∀ e, Has ⟨c, s⟩ e → ReadsAs ⟨c, s⟩ (uniqueName ⟨c, s⟩ e) [[e]]) ∧
      (∀ l, c.Has (.level l) → ReadsAs ⟨c, s⟩ (c.level l).uniqueName
        ((c.level l).members.toList.map fun m => [.member m])) ∧
      (∀ h, c.Has (.hierarchy h) → ReadsAs ⟨c, s⟩ (c.hierarchy h).uniqueName
        [[.member (c.hierarchy h).allMember]]) ∧
      ∀ d, c.Has (.dimension d) → ∃ h, (c.dimension d).hierarchies = [h] ∧
        ReadsAs ⟨c, s⟩ (c.dimension d).uniqueName [[.member (c.hierarchy h).allMember]] := by
  have hf := Cube.findable_of_build hbuild
  have ho := ownKeys_ofDefinitions hscope
  have hentity {e : Entity} (he : c.Has e) :
      ReadsAs ⟨c, s⟩ (c.uniqueName e) (referredSet ⟨c, s⟩ (.ofEntity e)) :=
    reads_entity hf ho hsets he
  refine ⟨fun e he => ?_, fun l hl => hentity hl, fun h hh => hentity hh, fun d hd => ?_⟩
  · cases e with
    | member m => exact hentity (e := .member m) he
    | measure m => exact hentity (e := .measure m) he
    | calculated i => exact reads_calculated ho he
  · have hhierarchies := hf.coherent.graph.dimension_hierarchies d hd
    refine ⟨_, hhierarchies, ?_⟩
    have hreads := hentity hd
    rw [Referent.ofEntity, referredSet, hhierarchies] at hreads
    exact hreads

theorem uniqueName_reads_back_loop :
    let ctx : Context := ⟨Sample.cube, ⟨#[Sample.loopMember], #[Sample.loopFormula], #[]⟩⟩
    ctx.SetsApart ∧ ctx.ReadsAs "[Measures].[Loop]" [[.calculated 0]] ∧
      ctx.ReadsAs "[Shop].[Shop].[City].[Rome]" [[.member ⟨1⟩]] ∧
      ctx.ReadsAs "[Shop].[Shop].[City]" [[.member ⟨1⟩]] := by
  intro ctx
  have hsets : ctx.SetsApart := fun set hset => absurd hset (Array.not_mem_empty set)
  obtain ⟨helement, hlevel, -⟩ :=
    uniqueName_reads_back Sample.build_eq_cube Sample.ofDefinitions_loop hsets
  have hrome : Sample.cube.Has (.member ⟨1⟩) := by
    show 1 < Sample.cube.members.size
    decide
  have hcity : Sample.cube.Has (.level ⟨1⟩) := by
    show 1 < Sample.cube.levels.size
    decide
  have hname : (Sample.cube.member ⟨1⟩).uniqueName = "[Shop].[Shop].[City].[Rome]" := by
    decide
  have hlevelName : (Sample.cube.level ⟨1⟩).uniqueName = "[Shop].[Shop].[City]" := by
    decide
  refine ⟨hsets, helement (.calculated 0) Nat.zero_lt_one, ?_, ?_⟩
  · rw [← hname]
    exact helement (.member ⟨1⟩) hrome
  · rw [← hlevelName]
    exact hlevel ⟨1⟩ hcity

end Context

end CubeQuery
