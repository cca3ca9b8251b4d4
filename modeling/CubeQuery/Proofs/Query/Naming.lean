import CubeQuery.Proofs.Query.Uniform

/-!
Members of tuples are known by their names. A calculated member is declared only under a name that
no object of the cube and no earlier calculated member has, so that different members never share a
unique name.
-/

namespace CubeQuery

open CubeQuery.Language Noted

namespace Context

variable {ctx : Context} {c : Cube} {s s' : Scope}

/-- Calculated members have names of their own. -/
structure OwnNames (c : Cube) (s : Scope) : Prop where
  fresh : ∀ i < s.members.size, c.names[(s.member i).uniqueName]? = none
  apart : ∀ i < s.members.size, ∀ j < s.members.size,
    (s.member i).uniqueName = (s.member j).uniqueName → i = j

theorem member_mem {i : Nat} (hi : i < s.members.size) : s.member i ∈ s.members := by
  rw [Scope.member, ← Array.getElem_eq_getD]
  exact Array.getElem_mem hi

/-- What a definition declares is called by its path, which nothing else is called. -/
theorem gives_declared_free (d : MemberDefinition) : (ctx.declared d).Gives fun m =>
    d.path.segments ≠ [] ∧ m.uniqueName = d.path.render ∧ ctx.scope.findMember? d.path = none ∧
      ctx.cube.find? m.uniqueName = none := by
  unfold declared
  split
  · exact gives_fail _
  · rename_i caption hcaption
    dsimp only
    split
    · exact gives_fail _
    · refine gives_bind gives_true fun r _ => ?_
      split
      · exact gives_fail _
      · split
        · exact gives_fail _
        · rename_i hfree
          simp only [nameTaken, Bool.or_eq_true, not_or, Bool.not_eq_true,
            Option.isSome_eq_false_iff, Option.isNone_iff_eq_none] at hfree
          obtain ⟨⟨hmember, hobject⟩, -⟩ := hfree
          refine gives_pure ⟨?_, rfl, hmember, hobject⟩
          rintro hnil
          rw [hnil] at hcaption
          cases hcaption

/-- What a definition declares has a name that is not taken. -/
theorem gives_declared_name (d : MemberDefinition) : (ctx.declared d).Gives fun m =>
    ctx.cube.names[m.uniqueName]? = none ∧
      ∀ i < ctx.scope.members.size, (ctx.scope.member i).uniqueName ≠ m.uniqueName := by
  refine (gives_declared_free d).mono fun m ⟨_, hname, hmember, hobject⟩ => ?_
  refine ⟨(Option.or_eq_none_iff.1 hobject).1, fun i hi heq => ?_⟩
  have hkeys := List.findIdx?_eq_none_iff.1 hmember _ (Array.mem_toList_iff.2 (member_mem hi))
  rw [heq, hname] at hkeys
  simp [Scope.nameKey] at hkeys

theorem OwnNames.pushMember (h : OwnNames c s) {m : CalculatedMember}
    (hfresh : c.names[m.uniqueName]? = none)
    (hapart : ∀ i < s.members.size, (s.member i).uniqueName ≠ m.uniqueName) :
    OwnNames c { s with members := s.members.push m } := by
  have hold {i : Nat} (hi : i < s.members.size) :
      Scope.member { s with members := s.members.push m } i = s.member i := by
    simp [Scope.member, Array.getD, hi, Nat.lt_succ_of_lt hi, Array.getElem_push_lt hi]
  have hnew : Scope.member { s with members := s.members.push m } s.members.size = m := by
    simp [Scope.member, Array.getD]
  have hcases {i : Nat} (hi : i < (s.members.push m).size) :
      i < s.members.size ∨ i = s.members.size := by
    rw [Array.size_push] at hi
    omega
  constructor
  · intro i hi
    rcases hcases hi with hi | rfl
    · rw [hold hi]
      exact h.fresh i hi
    · rwa [hnew]
  · intro i hi j hj heq
    rcases hcases hi with hi | rfl <;> rcases hcases hj with hj | rfl
    · rw [hold hi, hold hj] at heq
      exact h.apart i hi j hj heq
    · rw [hold hi, hnew] at heq
      exact absurd heq (hapart i hi)
    · rw [hold hj, hnew] at heq
      exact absurd heq.symm (hapart j hj)
    · rfl

theorem OwnNames.congr (h : OwnNames c s) (hmembers : s'.members = s.members) : OwnNames c s' := by
  have hmember (i : Nat) : s'.member i = s.member i := by rw [Scope.member, Scope.member, hmembers]
  constructor
  · intro i hi
    rw [hmember]
    exact h.fresh i (hmembers ▸ hi)
  · intro i hi j hj heq
    rw [hmember, hmember] at heq
    exact h.apart i (hmembers ▸ hi) j (hmembers ▸ hj) heq

theorem gives_declare_names (h : OwnNames c s) (d : Definition) :
    (Scope.declare c s d).Gives (OwnNames c) := by
  cases d with
  | member d =>
    exact gives_bind (gives_declared_name d) fun m hm => gives_pure (h.pushMember hm.1 hm.2)
  | set d => exact gives_pure h

theorem gives_read_members (d : Definition) : (Scope.read c s d).Gives fun s' =>
    s'.members = s.members := by
  cases d with
  | member d => exact gives_bind gives_true fun f _ => gives_pure rfl
  | set d =>
    refine gives_bind gives_true fun tuples _ => ?_
    split
    · exact gives_fail _
    · exact gives_pure rfl

theorem gives_read_names (h : OwnNames c s) (d : Definition) :
    (Scope.read c s d).Gives (OwnNames c) :=
  (gives_read_members d).mono fun _ hmembers => h.congr hmembers

theorem ownNames_ofDefinitions {definitions : List Definition}
    (hs : (Scope.ofDefinitions c definitions).result = .ok s) : OwnNames c s := by
  have hempty : OwnNames c .empty := by constructor <;> simp [Scope.empty]
  have hgives : (Scope.ofDefinitions c definitions).Gives (OwnNames c) :=
    gives_bind (gives_foldlM (fun _ d h => gives_declare_names h d) definitions hempty)
      fun declared hdeclared =>
        gives_foldlM (fun _ d h => gives_read_names h d) definitions hdeclared
  exact hgives s hs

/-- Different members have different unique names. -/
theorem uniqueName_injective (hn : Cube.Named c) (ho : OwnNames c s) {a b : Element}
    (ha : Context.Has ⟨c, s⟩ a) (hb : Context.Has ⟨c, s⟩ b)
    (heq : Context.uniqueName ⟨c, s⟩ a = Context.uniqueName ⟨c, s⟩ b) : a = b := by
  have hstored (e e' : Entity) (he : c.Has e) (he' : c.Has e')
      (hname : c.uniqueName e = c.uniqueName e') : e = e' :=
    Option.some.inj (((hn.names_iff _ _).2 ⟨he, rfl⟩).symm.trans
      ((hn.names_iff _ _).2 ⟨he', hname.symm⟩))
  have hown (e : Entity) (he : c.Has e) {i : Nat} (hi : i < s.members.size) :
      c.uniqueName e ≠ (s.member i).uniqueName := by
    intro hname
    have hnone := ho.fresh i hi
    rw [(hn.names_iff _ _).2 ⟨he, hname⟩] at hnone
    cases hnone
  cases a with
  | member m =>
    cases b with
    | member m' => rw [Entity.member.inj (hstored _ _ ha hb heq)]
    | measure n => cases hstored (.member m) (.measure n) ha hb heq
    | calculated j => exact absurd heq (hown (.member m) ha hb)
  | measure n =>
    cases b with
    | member m => cases hstored (.measure n) (.member m) ha hb heq
    | measure n' => rw [Entity.measure.inj (hstored _ _ ha hb heq)]
    | calculated j => exact absurd heq (hown (.measure n) ha hb)
  | calculated i =>
    cases b with
    | member m => exact absurd heq.symm (hown (.member m) hb ha)
    | measure n => exact absurd heq.symm (hown (.measure n) hb ha)
    | calculated j => rw [ho.apart i ha j hb heq]

end Context

end CubeQuery
