import CubeQuery.Proofs.Language.Places
import CubeQuery.Proofs.Language.StatementAccounts
import Mathlib.Data.String.Basic

/-!
Positions as bytes of the query. A path stands where the token of its first name does, and a
complaint points in front of a character or to the end; inside a quoted body the quotes that were
written twice count twice.
-/

namespace CubeQuery.Language

open Lexemes CubeQuery.Text

variable {text body : String} {rest : Lexemes} {before ls us : List Lexeme} {l : Lexeme} {p : Path}
  {e : Expr} {cs s : List Char} {c : Char} {length : Nat}

/-! ### Bytes -/

theorem extent_utf8Size (s : String) : extent Char.utf8Size s.toList = s.utf8ByteSize := by
  have hlist (cs : List Char) : extent Char.utf8Size cs = String.utf8Len cs := by
    induction cs with
    | nil => rfl
    | cons c cs ih => rw [extent_cons, ih, String.utf8Len_cons, Nat.add_comm]
  rw [hlist, String.utf8Len_toList]

/-- A quote inside a quoted body was written twice. -/
theorem extent_doubled (s : String) : extent Char.utf8Size (doubled '\'' s) =
    extent (fun c => if c = '\'' then 2 else c.utf8Size) s.toList := by
  rw [doubled]
  induction s.toList with
  | nil => rfl
  | cons c cs ih =>
    rw [List.flatMap_cons, extent_append, extent_cons, ih]
    split
    · rename_i hquote
      rw [hquote]
      rfl
    · rw [extent_cons]
      rfl

theorem doubled_append (mark : Char) (s s' : String) :
    doubled mark (s ++ s') = doubled mark s ++ doubled mark s' := by
  rw [doubled, doubled, doubled, String.toList_append, List.flatMap_append]

/-- A quoted text is written between quotes, its own ones twice. -/
theorem quoted_of_tokenAt (h : tokenAt c cs = .ok (.quoted body, length)) :
    c = '\'' ∧ ∃ more, cs = doubled '\'' body ++ '\'' :: more := by
  cases tokenAt_cases h with
  | delimited hdelimits h =>
    obtain ⟨s, more, ht, hcs⟩ := delimitedAt_eq_ok h
    cases hdelimits with
    | quote =>
      cases ht
      exact ⟨rfl, more, hcs⟩
    | _ => cases ht
  | number _ h =>
    obtain ⟨d, hd, -⟩ := numberAt_eq_ok h
    cases hd
  | unclosedComment _ _ h | symbol _ h | word _ h | stray h => cases h

/-! ### Places -/

namespace Lexeme

/-- Where the lexeme stands in the query: in front of the text, or in front of what is left of a
quoted body. -/
def Fronts (l : Lexeme) (text : String) : Prop :=
  l.Opens text.toList ∨ ∃ (inner : String) (more : List Char),
    text.toList = doubled '\'' inner ++ '\'' :: more ∧ l.Opens inner.toList

/-- The lexeme starts where as many bytes of the text have gone by as its place tells. -/
def StandsIn (l : Lexeme) (text : String) : Prop :=
  ∃ pre post, text = pre ++ post ∧ l.start = pre.utf8ByteSize ∧ l.Fronts post

end Lexeme

/-- What is left of a query starts behind as many bytes as its position tells. -/
theorem Reaches.place (h : Reaches True (ofQuery text) before rest) :
    ∃ pre post, text = pre ++ post ∧ rest.position = pre.utf8ByteSize ∧
      ∀ l after, rest = .cons l after → l.Fronts post := by
  have hsplit {pre post : List Char} (hcs : text.toList = pre ++ post) :
      text = String.ofList pre ++ String.ofList post := by
    rw [← String.ofList_append, ← hcs, String.ofList_toList]
  have hbytes (pre : List Char) :
      extent Char.utf8Size pre = (String.ofList pre).utf8ByteSize := by
    rw [← extent_utf8Size, String.toList_ofList]
  generalize hs : ofQuery text = s at h
  cases h with
  | here =>
    -- The scan splits the text itself, and its place is the extent of what it has passed.
    obtain ⟨pre, post, htext, hposition, hnext⟩ := scan_split hs
    refine ⟨String.ofList pre, String.ofList post, hsplit htext, ?_, fun l after hl => .inl ?_⟩
    · rw [hposition, Nat.zero_add, hbytes]
    · rw [String.toList_ofList]
      exact hnext l after hl
  | @inside hquotes outer quoted body hquoted after inner rest hinner =>
    -- Two scans: one up to the quoted text, one within it, where every quote counts twice.
    obtain ⟨pre, post, htext, hposition, hnext⟩ := scan_split hs
    obtain ⟨c, tail, length, rfl, htoken, -⟩ := hnext quoted after rfl
    rw [hquoted] at htoken
    obtain ⟨rfl, more, rfl⟩ := quoted_of_tokenAt htoken
    obtain ⟨pre', post', hbody, hposition', hnext'⟩ := scan_split hinner
    have hbody : body = String.ofList pre' ++ String.ofList post' := by
      rw [← String.ofList_append, ← hbody, String.ofList_toList]
    refine ⟨String.ofList (pre ++ '\'' :: doubled '\'' (String.ofList pre')),
      String.ofList (doubled '\'' (String.ofList post') ++ '\'' :: more), hsplit ?_, ?_, ?_⟩
    · rw [htext, hbody, doubled_append]
      simp
    · have hstart : quoted.start = 0 + extent Char.utf8Size pre := hposition
      rw [hposition', hstart, ← hbytes, extent_append, extent_cons, extent_doubled,
        String.toList_ofList, Nat.zero_add, Nat.add_assoc]
      rfl
    · intro l after hl
      refine .inr ⟨String.ofList post', more, String.toList_ofList, ?_⟩
      rw [String.toList_ofList]
      exact hnext' l after hl

/-! ### Paths -/

mutual

/-- The paths of an expression, as they are written from left to right. -/
def Expr.paths : Expr → List Path
  | .path p | .property p _ => [p]
  | .set items | .tuple items | .call _ items => Expr.pathsAll items
  | .number _ | .text _ | .flag _ => []
  | .negate e => e.paths
  | .binary _ left right => left.paths ++ right.paths

def Expr.pathsAll : List Expr → List Path
  | [] => []
  | e :: es => e.paths ++ Expr.pathsAll es

end

theorem Expr.pathsAll_eq (es : List Expr) : pathsAll es = es.flatMap paths := by
  induction es with
  | nil => rfl
  | cons e es ih => rw [pathsAll, ih, List.flatMap_cons]

/-- The paths of a statement: those that its definitions define, and those of its expressions. -/
def Statement.paths (st : Statement) : List Path :=
  st.definitions.map Definition.path ++ st.exprs.flatMap Expr.paths

/-- The lexeme is the first name of the path, and the path is placed where it stands. -/
def Path.BeginsWith (p : Path) (l : Lexeme) : Prop :=
  l.token.name? = p.segments.head? ∧ l.start = p.position

theorem Path.Written.first (h : p.Written ls) : ∃ l ∈ ls, p.BeginsWith l := by
  obtain ⟨l, us, rfl, hl⟩ := h.names.exists_head
  exact ⟨l, List.mem_cons_self, hl, Option.some.inj h.position⟩

theorem Expr.Written.first (h : e.Written ls) (hp : p ∈ e.paths) : ∃ l ∈ ls, p.BeginsWith l := by
  -- A path of one of the items is found in the lexemes of that item.
  have hitems {items : List (List Lexeme × Expr)} {ls : List Lexeme}
      (hjoined : Joined ls (items.map Prod.fst))
      (hitems : ∀ q ∈ items, p ∈ q.2.paths → ∃ l ∈ q.1, p.BeginsWith l)
      (hp : p ∈ pathsAll (items.map Prod.snd)) : ∃ l ∈ ls, p.BeginsWith l := by
    rw [pathsAll_eq, List.mem_flatMap] at hp
    obtain ⟨e, he, hp⟩ := hp
    obtain ⟨q, hq, rfl⟩ := List.mem_map.1 he
    obtain ⟨l, hl, hfirst⟩ := hitems q hq hp
    exact ⟨l, hjoined.mem (List.mem_map_of_mem hq) hl, hfirst⟩
  induction h with
  | number | text | flag => cases hp
  | @named l ls name names property? hl halone htail =>
    have hfirst : p = ⟨name :: names, l.start⟩ := by
      cases property? <;> exact List.mem_singleton.1 hp
    exact ⟨l, List.mem_cons_self, by rw [hfirst]; exact hl, by rw [hfirst]⟩
  | negate hl h ih =>
    obtain ⟨m, hm, hfirst⟩ := ih hp
    exact ⟨m, List.mem_cons_of_mem _ hm, hfirst⟩
  | grouped hfirst h hlast ih =>
    obtain ⟨m, hm, hbegins⟩ := ih hp
    exact ⟨m, by simp [hm], hbegins⟩
  | set hfirst hjoined _ hlast ih =>
    obtain ⟨m, hm, hbegins⟩ := hitems hjoined ih hp
    exact ⟨m, by simp [hm], hbegins⟩
  | tuple hfirst hlength hjoined _ hlast ih =>
    obtain ⟨m, hm, hbegins⟩ := hitems hjoined ih hp
    exact ⟨m, by simp [hm], hbegins⟩
  | call hl hw hfirst hjoined _ hlast ih =>
    obtain ⟨m, hm, hbegins⟩ := hitems hjoined ih hp
    exact ⟨m, by simp [hm], hbegins⟩
  | binary hleft hl hright ihleft ihright =>
    rcases List.mem_append.1 hp with hp | hp
    · obtain ⟨m, hm, hbegins⟩ := ihleft hp
      exact ⟨m, List.mem_append_left _ hm, hbegins⟩
    · obtain ⟨m, hm, hbegins⟩ := ihright hp
      exact ⟨m, List.mem_append_right _ (List.mem_cons_of_mem _ hm), hbegins⟩

/-- A lexeme among these, or in the body that one of them quotes. -/
inductive Holds (ls : List Lexeme) : Lexeme → Prop
  | outside {l : Lexeme} (hl : l ∈ ls) : Holds ls l
  | inside {quoted l : Lexeme} {body : String} {inner : List Lexeme} {position : Nat}
      (hquoted : quoted ∈ ls) (htoken : quoted.token = .quoted body)
      (hinner : ofQuoted (quoted.start + 1) body = prepend inner (.finish position))
      (hl : l ∈ inner) : Holds ls l

theorem Holds.mono (h : Holds ls l) (hsubset : ls ⊆ us) : Holds us l := by
  cases h with
  | outside hl => exact .outside (hsubset hl)
  | inside hquoted htoken hinner hl => exact .inside (hsubset hquoted) htoken hinner hl

theorem Expr.WrittenBody.first (h : e.WrittenBody ls) (hp : p ∈ e.paths) :
    ∃ l, Holds ls l ∧ p.BeginsWith l := by
  cases h with
  | plain h =>
    obtain ⟨l, hl, hbegins⟩ := h.first hp
    exact ⟨l, .outside hl, hbegins⟩
  | quoted htoken hinner h =>
    obtain ⟨l, hl, hbegins⟩ := h.first hp
    exact ⟨l, .inside List.mem_cons_self htoken hinner hl, hbegins⟩

theorem settings_keep (settings : List MemberSetting) (d : MemberDefinition) :
    (settings.foldl MemberDefinition.apply d).path = d.path ∧
      (settings.foldl MemberDefinition.apply d).expr = d.expr := by
  induction settings generalizing d with
  | nil => exact ⟨rfl, rfl⟩
  | cons a settings ih => cases a <;> exact ih _

theorem Definition.Written.first {d : Definition} (h : d.Written ls)
    (hp : p ∈ d.path :: d.expr.paths) : ∃ l, Holds ls l ∧ p.BeginsWith l := by
  -- Both kinds of definition start with a word, a path, `AS` and a body.
  have hparts (word as : Lexeme) (more : List Lexeme) {path body : List Lexeme} {first : Path}
      {e : Expr} (hpath : first.Written path) (hbody : e.WrittenBody body)
      (hp : p ∈ first :: e.paths) :
      ∃ l, Holds (word :: (path ++ as :: (body ++ more))) l ∧ p.BeginsWith l := by
    rcases List.mem_cons.1 hp with rfl | hp
    · obtain ⟨l, hl, hbegins⟩ := hpath.first
      exact ⟨l, .outside (by simp [hl]), hbegins⟩
    · obtain ⟨l, hl, hbegins⟩ := hbody.first hp
      exact ⟨l, hl.mono fun m hm => by simp [hm], hbegins⟩
  cases h with
  | @member word as path body more first e settings hword hpath has hbody hsettings =>
    obtain ⟨hfirst, he⟩ := settings_keep settings ⟨first, e, none, 0⟩
    rw [Definition.path, Definition.expr, hfirst, he] at hp
    exact hparts word as more hpath hbody hp
  | @set word as path body first e hword hpath has hbody =>
    have hset := hparts word as [] hpath hbody hp
    rwa [List.append_nil] at hset

theorem mem_flatten_of_sequence {α : Type} {form : List Lexeme → α → Prop} {as : List α} {a : α}
    (h : Sequence form ls as) (ha : a ∈ as) : ∃ us, us ⊆ ls ∧ form us a := by
  obtain ⟨items, rfl, rfl, hitems⟩ := h
  obtain ⟨q, hq, rfl⟩ := List.mem_map.1 ha
  exact ⟨q.1, fun l hl => List.mem_flatten.2 ⟨q.1, List.mem_map_of_mem hq, hl⟩, hitems q hq⟩

theorem Listed.exists_mem {α : Type} {form : List Lexeme → α → Prop} {as : List α} {a : α}
    (h : Listed form ls as) (ha : a ∈ as) : ∃ us, us ⊆ ls ∧ form us a := by
  obtain ⟨items, hjoined, rfl, hitems⟩ := h
  obtain ⟨q, hq, rfl⟩ := List.mem_map.1 ha
  exact ⟨q.1, fun l hl => hjoined.mem (List.mem_map_of_mem hq) hl, hitems q hq⟩

theorem Statement.Written.first {st : Statement} (h : st.Written ls) (hp : p ∈ st.paths) :
    ∃ l, Holds ls l ∧ p.BeginsWith l := by
  cases h with
  | @mk definitions axes cube slicer properties ends select word ds clauses name slicer? names
      hdefinitions hselect hfirst haxes hword hcube hslicer hproperties hends =>
    have hdefined {d : Definition} (hd : d ∈ ds) (hp : p ∈ d.path :: d.expr.paths) :
        ∃ l, Holds definitions l ∧ p.BeginsWith l := by
      cases hdefinitions with
      | none => cases hd
      | some hwith hne hds =>
        obtain ⟨us, hus, hwritten⟩ := mem_flatten_of_sequence hds hd
        obtain ⟨l, hl, hbegins⟩ := hwritten.first hp
        exact ⟨l, hl.mono fun m hm => List.mem_cons_of_mem _ (hus hm), hbegins⟩
    have hleft (l : Lexeme) (hl : Holds definitions l) : Holds (definitions ++ select ::
        (axes ++ word :: (cube ++ (slicer ++ (properties ++ ends))))) l :=
      hl.mono (List.subset_append_left _ _)
    -- The path that a definition defines; a path of its body, of an axis or of the slicer.
    rcases List.mem_append.1 hp with hp | hp
    · obtain ⟨d, hd, rfl⟩ := List.mem_map.1 hp
      obtain ⟨l, hl, hbegins⟩ := hdefined hd List.mem_cons_self
      exact ⟨l, hleft l hl, hbegins⟩
    · obtain ⟨e, he, hpath⟩ := List.mem_flatMap.1 hp
      rcases List.mem_append.1 he with he | he
      · obtain ⟨d, hd, rfl⟩ := List.mem_map.1 he
        obtain ⟨l, hl, hbegins⟩ := hdefined hd (List.mem_cons_of_mem _ hpath)
        exact ⟨l, hleft l hl, hbegins⟩
      · rcases List.mem_append.1 he with he | he
        · obtain ⟨a, ha, rfl⟩ := List.mem_map.1 he
          obtain ⟨us, hus, hwritten⟩ := haxes.exists_mem (List.mem_mergeSort.1 ha)
          cases hwritten with
          | @mk mark set properties' index on nonEmpty e names n hmark hunmarked hset hnames hon
              hindex =>
            obtain ⟨l, hl, hbegins⟩ := hset.first hpath
            have hmem : l ∈ axes := hus (by simp [hl])
            exact ⟨l, .outside (by simp [hmem]), hbegins⟩
        · cases hslicer with
          | none => cases he
          | some hwhere h =>
            obtain rfl := List.mem_singleton.1 he
            obtain ⟨l, hl, hbegins⟩ := h.first hpath
            exact ⟨l, .outside (by simp [hl]), hbegins⟩

/-! ### Texts -/

theorem Holds.reaches (h : Holds ls l) {last : Nat}
    (hs : ofQuery text = prepend ls (.finish last)) :
    ∃ before after, Reaches True (ofQuery text) before (.cons l after) := by
  rw [hs]
  cases h with
  | outside hl =>
    obtain ⟨before, after, rfl⟩ := List.append_of_mem hl
    rw [prepend_append]
    exact ⟨before, prepend after (.finish last), .here before _⟩
  | @inside quoted l body inner position hquoted htoken hinner hl =>
    obtain ⟨before, after, rfl⟩ := List.append_of_mem hquoted
    obtain ⟨before', after', rfl⟩ := List.append_of_mem hl
    rw [prepend_append] at hinner ⊢
    exact ⟨before ++ before', prepend after' (.finish position),
      .inside trivial before htoken _ hinner⟩

/-- The path is placed at the first byte of its first name. -/
def Path.StandsIn (p : Path) (text : String) : Prop :=
  ∃ l, (∃ before after, Reaches True (ofQuery text) before (.cons l after)) ∧ p.BeginsWith l ∧
    l.StandsIn text

theorem Statement.paths_stand {st : Statement} (h : Statement.ofText text = .ok st)
    (hp : p ∈ st.paths) : p.StandsIn text := by
  obtain ⟨ls, last, hs, hwritten⟩ := Statement.written_of_ofText h
  obtain ⟨l, hl, hbegins⟩ := hwritten.first hp
  obtain ⟨before, after, hreach⟩ := hl.reaches hs
  obtain ⟨pre, post, htext, hposition, hfronts⟩ := hreach.place
  exact ⟨l, ⟨before, after, hreach⟩, hbegins, pre, post, htext, hposition, hfronts l after rfl⟩

/-- A complaint points in front of a character of the text, or to its end. -/
theorem Statement.error_place {error : SyntaxError} (h : Statement.ofText text = .error error) :
    ∃ pre post, text = pre ++ post ∧ error.position = pre.utf8ByteSize := by
  obtain ⟨before, rest, hreach, hposition⟩ : ∃ before rest,
      Reaches True (ofQuery text) before rest ∧ error.position = rest.position := by
    cases Statement.blame_of_ofText h with
    | token before more hreach hbefore hmore he =>
      exact ⟨_, _, hreach, by rw [he, fault_position]⟩
    | broken hreach => exact ⟨_, _, hreach, rfl⟩
    | earlier hreach hposition hfault => exact ⟨_, _, hreach, hposition⟩
  obtain ⟨pre, post, htext, hplace, -⟩ := hreach.place
  exact ⟨pre, post, htext, hposition.trans hplace⟩

end CubeQuery.Language
