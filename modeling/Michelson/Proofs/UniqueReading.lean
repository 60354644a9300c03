import Mathlib.Data.List.Forall2
import Michelson.Proofs.EqualityLaws

namespace Michelson

/-- How deep in parentheses a text is after one more character. Outside of all parentheses a space ends the text, and
there is nothing to close. -/
def nestingAfter (depth : Nat) (c : Char) : Option Nat :=
  if c = '(' then some (depth + 1)
  else if depth = 0 ∧ (c = ')' ∨ c = ' ') then none
  else if c = ')' then some (depth - 1)
  else some depth

/-- How deep in parentheses a text ends that starts at this depth, unless it ends before. -/
def nesting (depth : Nat) (text : String) : Option Nat :=
  text.toList.foldlM nestingAfter depth

/-- A text that closes all parentheses it opens and has no space outside of them. -/
def IsWord (text : String) : Prop :=
  nesting 0 text = some 0

def PlainName (name : String) : Prop :=
  ' ' ∉ name.toList ∧ '(' ∉ name.toList ∧ ')' ∉ name.toList

/-- A text is read on from the depth at which the text before it ends. -/
theorem nesting_append (depth : Nat) (s t : String) :
    nesting depth (s ++ t) = nesting depth s >>= fun d => nesting d t := by
  simp [nesting, List.foldlM_append]

theorem nestingAfter_succ {depth d : Nat} {c : Char} (h : nestingAfter depth c = some d) :
    nestingAfter (depth + 1) c = some (d + 1) := by
  grind [nestingAfter]

/-- What can be read at some depth is read in the same way further in. -/
theorem nesting_succ {depth d : Nat} {text : String} (h : nesting depth text = some d) :
    nesting (depth + 1) text = some (d + 1) := by
  unfold nesting at h ⊢
  generalize text.toList = cs at h ⊢
  induction cs generalizing depth with
  | nil => simpa using h
  | cons c cs ih =>
    rw [List.foldlM_cons, Option.bind_eq_bind, Option.bind_eq_some_iff] at h
    obtain ⟨e, he, hcs⟩ := h
    rw [List.foldlM_cons, nestingAfter_succ he]
    exact ih hcs

theorem isWord_of_plainName {name : String} (h : PlainName name) : IsWord name := by
  obtain ⟨hspace, hopen, hclose⟩ := h
  unfold IsWord nesting
  generalize name.toList = cs at hspace hopen hclose
  induction cs with
  | nil => rfl
  | cons c cs ih =>
    rw [List.mem_cons, not_or] at hspace hopen hclose
    have hc : nestingAfter 0 c = some 0 := by
      simp [nestingAfter, Ne.symm hspace.1, Ne.symm hopen.1, Ne.symm hclose.1]
    rw [List.foldlM_cons, hc]
    exact ih hspace.2 hopen.2 hclose.2

namespace IsWord

/-- A row of words becomes a word in parentheses. -/
theorem parentheses {ws : List String} (h : ∀ w ∈ ws, IsWord w) :
    IsWord ("(" ++ " ".intercalate ws ++ ")") := by
  have hrow : nesting 1 (" ".intercalate ws) = some 1 := by
    induction ws with
    | nil => rfl
    | cons w ws ih =>
      have hw := nesting_succ (h w List.mem_cons_self)
      have hws := ih fun v hv => h v (List.mem_cons_of_mem w hv)
      cases ws with
      | nil => simpa using hw
      | cons v vs =>
        rw [String.intercalate_cons_cons, nesting_append, nesting_append, hw]
        exact hws
  unfold IsWord
  rw [nesting_append, nesting_append]
  change (nesting 1 (" ".intercalate ws) >>= fun d => nesting d ")") = some 0
  rw [hrow]
  rfl

/-- A space after a word ends it. -/
theorem not_of_space {u v : String} (hu : IsWord u) {cs : List Char}
    (h : v.toList = u.toList ++ ' ' :: cs) : ¬IsWord v := by
  unfold IsWord nesting at hu ⊢
  rw [h, List.foldlM_append, hu]
  simp [nestingAfter]

/-- A word that starts with another one is that word, if a space follows on each of them. -/
theorem eq_of_append {u v s t : String} (hu : IsWord u) (hv : IsWord v) {cs : List Char}
    (h : v.toList = u.toList ++ cs) (hrest : ' ' :: s.toList = cs ++ ' ' :: t.toList) :
    u = v ∧ s = t := by
  cases cs with
  | nil => simp_all [String.toList_inj]
  | cons c cs =>
    -- the longer word would go on with the space after the shorter one
    rw [List.cons_append, List.cons.injEq] at hrest
    exact absurd hv (hu.not_of_space (hrest.1 ▸ h))

/-- The first word of a text can be read off, up to the space that ends it. -/
theorem append_space_inj {u v s t : String} (hu : IsWord u) (hv : IsWord v)
    (h : u ++ " " ++ s = v ++ " " ++ t) : u = v ∧ s = t := by
  have hchars : u.toList ++ ' ' :: s.toList = v.toList ++ ' ' :: t.toList := by
    simpa using congrArg String.toList h
  rcases List.append_eq_append_iff.mp hchars with ⟨cs, hcs, hrest⟩ | ⟨cs, hcs, hrest⟩
  · exact hu.eq_of_append hv hcs hrest
  · obtain ⟨hvu, hts⟩ := hv.eq_of_append hu hcs hrest
    exact ⟨hvu.symm, hts.symm⟩

theorem ne_row {u v : String} (hu : IsWord u) (hv : IsWord v) (w : String) (ws : List String) :
    u ≠ " ".intercalate (v :: w :: ws) := by
  intro h
  rw [String.intercalate_cons_cons] at h
  have hchars : u.toList = v.toList ++ ' ' :: (" ".intercalate (w :: ws)).toList := by simp [h]
  exact hv.not_of_space hchars hu

/-- Words can be read off the row of them. -/
theorem row_inj {us vs : List String} (hus : us ≠ []) (hvs : vs ≠ []) (hu : ∀ w ∈ us, IsWord w)
    (hv : ∀ w ∈ vs, IsWord w) (h : " ".intercalate us = " ".intercalate vs) : us = vs := by
  induction us generalizing vs with
  | nil => exact absurd rfl hus
  | cons u us ih =>
    obtain ⟨v, vs, rfl⟩ := List.exists_cons_of_ne_nil hvs
    rw [List.forall_mem_cons] at hu hv
    cases us with
    | nil =>
      rw [String.intercalate_singleton] at h
      cases vs with
      | nil => simpa using h
      | cons v' vs => exact absurd h (hu.1.ne_row hv.1 v' vs)
    | cons u' us =>
      cases vs with
      | nil =>
        rw [String.intercalate_singleton] at h
        exact absurd h.symm (hv.1.ne_row hu.1 u' us)
      | cons v' vs =>
        rw [String.intercalate_cons_cons, String.intercalate_cons_cons] at h
        obtain ⟨rfl, hrest⟩ := append_space_inj hu.1 hv.1 h
        rw [ih (by simp) (by simp) hu.2 hv.2 hrest]

end IsWord

mutual

/-- The names that the text of a type shows: those of fields and of type variables. -/
def Ty.names : Ty → List String
  | .option t | .list t | .set t | .contract t => t.names
  | .or l r | .pair l r | .map l r | .bigMap l r => l.names ++ r.names
  | .lambda ⟨arg, ret, _, _⟩ => arg.names ++ ret.names
  | .record ⟨_, fields⟩ => fieldNames fields
  | .var name => [name]
  | _ => []

def fieldNames : List Field → List String
  | [] => []
  | ⟨name, t⟩ :: rest => name :: t.names ++ fieldNames rest

end

namespace Ty

def NamesPlain (t : Ty) : Prop :=
  ∀ name ∈ t.names, PlainName name

def argument (t : Ty) : String :=
  parenthesized t.isCompound t.render

/-- The word that says of what kind a type is, or the name of the field it stands for. -/
def title : Ty → String
  | .unit => "unit"
  | .bool => "bool"
  | .int => "int"
  | .nat => "nat"
  | .mutez => "mutez"
  | .string => "string"
  | .bytes => "bytes"
  | .address => "address"
  | .timestamp => "timestamp"
  | .operation => "operation"
  | .option _ => "option"
  | .or _ _ => "or"
  | .pair _ _ => "pair"
  | .list _ => "list"
  | .set _ => "set"
  | .map _ _ => "map"
  | .bigMap _ _ => "big_map"
  | .contract _ => "contract"
  | .lambda _ => "lambda"
  | .record ⟨_, []⟩ => "unit"
  | .record ⟨_, [f]⟩ => "%" ++ f.name
  | .record ⟨_, _ :: _ :: _⟩ => "pair"
  | .universal => "universal"
  | .var name => "'" ++ name

/-- The types that are shown as arguments. -/
def shown : Ty → List Ty
  | .option t | .list t | .set t | .contract t => [t]
  | .or l r | .pair l r | .map l r | .bigMap l r => [l, r]
  | .lambda f => [f.arg, f.ret]
  | .record ⟨_, [f]⟩ => [f.type]
  | .record ⟨name, f :: rest⟩ => [.record ⟨name, [f]⟩, .record ⟨name, rest⟩]
  | _ => []

def isField : Ty → Bool
  | .record ⟨_, [_]⟩ => true
  | _ => false

def words (t : Ty) : List String :=
  if t.isField then t.shown.map argument ++ [t.title] else t.title :: t.shown.map argument

/-- The text of a type is its words with single spaces between them. -/
theorem render_eq_words (t : Ty) : t.render = " ".intercalate t.words := by
  rw [← String.toList_inj]
  cases t with
  | record r =>
    obtain ⟨name, _ | ⟨⟨_, u⟩, _ | ⟨g, rest⟩⟩⟩ := r
    · rfl
    · simp [render, renderFields, words, isField, shown, title, argument]
    · simp [render, renderFields, words, isField, shown, title, argument, isCompound, parenthesized]
  | lambda f =>
    obtain ⟨arg, ret, body, applied⟩ := f
    simp [render, words, isField, shown, title, argument]
  | _ => simp [render, words, isField, shown, title, argument]

theorem argument_of_isCompound {t : Ty} (h : t.isCompound) : t.argument = "(" ++ t.render ++ ")" := by
  rw [argument, parenthesized, if_pos h]

/-- The text of a type that is made of no others is its title. -/
theorem render_of_not_isCompound {t : Ty} (h : t.isCompound = false) : t.render = t.title := by
  cases t with
  | record r =>
    obtain ⟨name, fields⟩ := r
    cases fields with
    | nil => rfl
    | cons f rest => cases h
  | option | or | pair | list | set | map | bigMap | contract | lambda => cases h
  | _ => rfl

theorem argument_of_not_isCompound {t : Ty} (h : t.isCompound = false) : t.argument = t.title := by
  rw [argument, parenthesized, h, render_of_not_isCompound h]
  rfl

/-- What is shown as an argument is smaller than the whole, and shows no other names. -/
theorem of_mem_shown {t u : Ty} (h : u ∈ t.shown) : u.weight < t.weight ∧ u.names ⊆ t.names := by
  cases t with
  | record r =>
    obtain ⟨name, fields⟩ := r
    match fields with
    | [] => cases h
    | [⟨_, v⟩] =>
      cases List.mem_singleton.mp h
      refine ⟨?_, by simp [names, fieldNames]⟩
      simp only [weight, fieldsWeight]
      omega
    | ⟨_, v⟩ :: ⟨_, w⟩ :: rest =>
      -- each of the two records has fewer fields
      simp only [shown, List.mem_cons, List.not_mem_nil, or_false] at h
      rcases h with rfl | rfl
      all_goals
        refine ⟨?_, by simp [names, fieldNames]⟩
        simp only [weight, fieldsWeight]
        omega
  | lambda f =>
    obtain ⟨arg, ret, body, applied⟩ := f
    simp only [shown, List.mem_cons, List.not_mem_nil, or_false] at h
    rcases h with rfl | rfl
    all_goals
      refine ⟨?_, by simp [names]⟩
      simp only [weight]
      omega
  | option | list | set | contract =>
    cases List.mem_singleton.mp h
    refine ⟨?_, by simp [names]⟩
    simp only [weight]
    omega
  | or | pair | map | bigMap =>
    simp only [shown, List.mem_cons, List.not_mem_nil, or_false] at h
    rcases h with rfl | rfl
    all_goals
      refine ⟨?_, by simp [names]⟩
      simp only [weight]
      omega
  | _ => cases h

theorem NamesPlain.of_mem_shown {t u : Ty} (h : t.NamesPlain) (hu : u ∈ t.shown) : u.NamesPlain :=
  fun name hname => h name ((Ty.of_mem_shown hu).2 hname)

/-- A title is as plain as the name in it. -/
theorem plainName_title {t : Ty} (h : t.NamesPlain) : PlainName t.title := by
  cases t with
  | record r =>
    obtain ⟨name, fields⟩ := r
    match fields with
    | [] => simp [PlainName, title]
    | [⟨field, v⟩] =>
      have hfield : PlainName field := h field (by simp [names, fieldNames])
      simpa [PlainName, title] using hfield
    | _ :: _ :: _ => simp [PlainName, title]
  | var name =>
    have hname : PlainName name := h name (by simp [names])
    simpa [PlainName, title] using hname
  | _ => simp [PlainName, title]

theorem mem_words_iff {t : Ty} {w : String} :
    w ∈ t.words ↔ w = t.title ∨ ∃ u ∈ t.shown, u.argument = w := by
  unfold words
  split <;> simp [or_comm]

theorem words_ne_nil (t : Ty) : t.words ≠ [] :=
  List.ne_nil_of_mem (mem_words_iff.mpr (.inl rfl))

/-- With plain names, the words of a type are words. -/
theorem isWord_of_mem_words {t : Ty} (h : t.NamesPlain) {w : String} (hw : w ∈ t.words) :
    IsWord w := by
  rcases mem_words_iff.mp hw with rfl | ⟨u, hu, rfl⟩
  · exact isWord_of_plainName (plainName_title h)
  · have hlt := (of_mem_shown hu).1
    have hplain := h.of_mem_shown hu
    cases hc : u.isCompound with
    | false =>
      rw [argument_of_not_isCompound hc]
      exact isWord_of_plainName (plainName_title hplain)
    | true =>
      -- what is in the parentheses is a row of words, by induction on the weight
      rw [argument_of_isCompound hc, render_eq_words]
      exact IsWord.parentheses fun v hv => isWord_of_mem_words hplain hv
termination_by t.weight

/-- The words of a type can be read off its text. -/
theorem words_eq_of_render_eq {a b : Ty} (ha : a.NamesPlain) (hb : b.NamesPlain)
    (h : a.render = b.render) : a.words = b.words := by
  rw [render_eq_words, render_eq_words] at h
  apply IsWord.row_inj a.words_ne_nil b.words_ne_nil _ _ h
  · exact fun w hw => isWord_of_mem_words ha hw
  · exact fun w hw => isWord_of_mem_words hb hw

theorem head?_title {t : Ty} (h : t.isCompound = false) :
    t.title.toList.head? ≠ some '(' ∧ t.title.toList.head? ≠ some '%' := by
  cases t with
  | record r =>
    obtain ⟨name, fields⟩ := r
    cases fields with
    | nil => simp [title]
    | cons f rest => cases h
  | _ => simp [title]

/-- An argument in parentheses is not taken for one without. -/
theorem head?_argument (t : Ty) : t.argument.toList.head? = some '(' ↔ t.isCompound := by
  cases hc : t.isCompound with
  | false =>
    rw [argument_of_not_isCompound hc]
    simpa using (head?_title hc).1
  | true => simp [argument_of_isCompound hc]

theorem render_eq_of_argument_eq {t u : Ty} (h : t.argument = u.argument) : t.render = u.render := by
  have hc : t.isCompound = u.isCompound := by
    rw [Bool.eq_iff_iff, ← head?_argument, ← head?_argument, h]
  cases hu : u.isCompound with
  | false => simpa [argument, parenthesized, hc, hu] using h
  | true => simpa [argument, parenthesized, hc, hu] using h

/-- An argument is not taken for the name of a field. -/
theorem argument_ne_annotation (t : Ty) (name : String) : t.argument ≠ "%" ++ name := by
  intro h
  cases hc : t.isCompound with
  | false =>
    rw [argument_of_not_isCompound hc] at h
    exact (head?_title hc).2 (by simp [h])
  | true =>
    have hhead := (head?_argument t).mpr hc
    simp [h] at hhead

theorem exists_of_isField {t : Ty} (h : t.isField) :
    ∃ u name, t.title = "%" ++ name ∧ t.shown = [u] := by
  cases t with
  | record r =>
    obtain ⟨_, fields⟩ := r
    match fields with
    | [] => cases h
    | [⟨name, u⟩] => exact ⟨u, name, rfl, rfl⟩
    | _ :: _ :: _ => cases h
  | _ => cases h

theorem isField_of_words_eq {a b : Ty} (h : a.words = b.words) (ha : a.isField) : b.isField := by
  obtain ⟨u, name, htitle, hshown⟩ := exists_of_isField ha
  rw [words, if_pos ha, htitle, hshown] at h
  cases hb : b.isField with
  | true => rfl
  | false =>
    -- the second word would be an argument and the name of a field
    rw [words, hb] at h
    have hmem : "%" ++ name ∈ b.shown.map argument := by
      rw [← (List.cons.inj h).2]
      exact List.mem_singleton_self _
    obtain ⟨v, -, hv⟩ := List.mem_map.mp hmem
    exact absurd hv (v.argument_ne_annotation name)

/-- From its words the title of a type is known, and what each of its arguments looks like. -/
theorem words_inj {a b : Ty} (h : a.words = b.words) :
    a.title = b.title ∧ a.shown.map argument = b.shown.map argument := by
  have hfield : a.isField = b.isField := by
    rw [Bool.eq_iff_iff]
    exact ⟨isField_of_words_eq h, isField_of_words_eq h.symm⟩
  unfold words at h
  rw [hfield] at h
  split at h
  · obtain ⟨hargs, htitle⟩ := List.append_inj' h rfl
    exact ⟨List.singleton_inj.mp htitle, hargs⟩
  · exact List.cons.inj h

/-- A record that does not show a single field, as the type that it shows itself as. -/
def unrolled : Ty → Ty
  | .record ⟨_, []⟩ => .unit
  | .record ⟨name, f :: g :: rest⟩ => .pair (.record ⟨name, [f]⟩) (.record ⟨name, g :: rest⟩)
  | t => t

theorem shown_unrolled (t : Ty) : t.unrolled.title = t.title ∧ t.unrolled.shown = t.shown := by
  fun_cases unrolled t <;> exact ⟨rfl, rfl⟩

/-- A record and the type it shows itself as are unfolded into the same. -/
theorem simplify_unrolled (t : Ty) : t.unrolled.simplify = t.simplify := by
  fun_cases unrolled t with
  | case1 => rfl
  | case2 name f g rest =>
    obtain ⟨_, u⟩ := f
    simp only [simplify, simplifyFields]
  | case3 => rfl

def titles : List String :=
  ["unit", "bool", "int", "nat", "mutez", "string", "bytes", "address", "timestamp", "operation",
    "option", "or", "pair", "list", "set", "map", "big_map", "contract", "lambda", "%", "universal",
    "'"]

def withoutName (title : String) : String :=
  match title.toList.head? with
  | some '%' => "%"
  | some '\'' => "'"
  | _ => title

/-- A title tells the kind of a type. -/
theorem idxOf_title (t : Ty) : titles.idxOf (withoutName t.title) = t.unrolled.ctorIdx := by
  cases t with
  | record r =>
    obtain ⟨name, fields⟩ := r
    match fields with
    | [] | [_] | _ :: _ :: _ => simp [title, withoutName, titles, unrolled, Ty.ctorIdx]
  | _ => simp [title, withoutName, titles, unrolled, Ty.ctorIdx]

theorem unrolled_of_not_isRecord {t : Ty} (h : t.isRecord = false) : t.unrolled = t := by
  cases t with
  | record r => cases h
  | _ => rfl

/-- A record equals what it shows itself as, and so do two of them if they show themselves as types of the same kind. -/
theorem equals_of_unrolled {a b : Ty} (hkind : a.unrolled.ctorIdx = b.unrolled.ctorIdx)
    (h : a.unrolled.equals b.unrolled) : a.equals b := by
  cases ha : a.isRecord with
  | false =>
    rw [unrolled_of_not_isRecord ha] at h
    cases hb : b.isRecord with
    | false => rwa [unrolled_of_not_isRecord hb] at h
    | true =>
      obtain ⟨s, rfl⟩ := exists_of_isRecord hb
      rw [equals_record ha, ← simplify_unrolled]
      exact equals_simplify h
  | true =>
    obtain ⟨⟨name, fs⟩, rfl⟩ := exists_of_isRecord ha
    cases hb : b.isRecord with
    | false =>
      rw [unrolled_of_not_isRecord hb] at h
      rw [record_equals hb, ← simplify_unrolled]
      exact equals_symm (equals_simplify (equals_symm h))
    | true =>
      obtain ⟨⟨name', gs⟩, rfl⟩ := exists_of_isRecord hb
      -- they show themselves as the same kind if both have no field, both have one or both have more
      match fs, gs with
      | [], [] => simp [equals, fieldsEqual]
      | [f], [g] => exact h
      | f :: f' :: fs, g :: g' :: gs => simpa [unrolled, equals, fieldsEqual] using h
      | [], [_] | [], _ :: _ :: _ | [_], [] | [_], _ :: _ :: _ | _ :: _ :: _, []
      | _ :: _ :: _, [_] => cases hkind

theorem exists_of_unrolled_eq_record {t : Ty} {r : Record} (h : t.unrolled = .record r) :
    ∃ name f, r = ⟨name, [f]⟩ := by
  cases t with
  | record s =>
    obtain ⟨name, fields⟩ := s
    match fields with
    | [] => cases h
    | [f] =>
      cases h
      exact ⟨name, f, rfl⟩
    | _ :: _ :: _ => cases h
  | _ => cases h

/-- Types are equal if they have the same title and, place by place, equal arguments. -/
theorem equals_of_shown {a b : Ty} (htitle : a.title = b.title)
    (hshown : List.Forall₂ (fun t u => t.equals u) a.shown b.shown) : a.equals b := by
  have hkind : a.unrolled.ctorIdx = b.unrolled.ctorIdx := by
    rw [← idxOf_title, ← idxOf_title, htitle]
  apply equals_of_unrolled hkind
  rw [← a.shown_unrolled.1, ← b.shown_unrolled.1] at htitle
  rw [← a.shown_unrolled.2, ← b.shown_unrolled.2] at hshown
  generalize ha : a.unrolled = a' at *
  generalize hb : b.unrolled = b' at *
  -- of all pairs of kinds only those of a kind with itself are left
  cases a' <;> cases b' <;> cases hkind
  case record.record.refl r s =>
    obtain ⟨_, ⟨field, t⟩, rfl⟩ := exists_of_unrolled_eq_record ha
    obtain ⟨_, ⟨field', u⟩, rfl⟩ := exists_of_unrolled_eq_record hb
    simp only [title, String.append_right_inj] at htitle
    simp only [shown, List.forall₂_cons, List.forall₂_nil_left_iff, and_true] at hshown
    simp [equals, fieldsEqual, htitle, hshown]
  case var.var.refl =>
    simp only [title, String.append_right_inj] at htitle
    simp [equals, htitle]
  all_goals
    simp only [shown, List.forall₂_cons, List.forall₂_nil_left_iff, and_true] at hshown
    simp [equals, hshown]

/-- Types that have the same text are equal. -/
theorem equals_of_render_eq {a b : Ty} (ha : a.NamesPlain) (hb : b.NamesPlain)
    (h : a.render = b.render) : a.equals b := by
  obtain ⟨htitle, hargs⟩ := words_inj (words_eq_of_render_eq ha hb h)
  rw [← List.forall₂_eq_eq_eq, List.forall₂_map_left_iff, List.forall₂_map_right_iff,
    List.forall₂_iff_zip] at hargs
  apply equals_of_shown htitle
  -- arguments in the same place have the same text, so they are equal by induction on the weight
  refine List.forall₂_iff_zip.mpr ⟨hargs.1, fun {t u} htu => ?_⟩
  obtain ⟨ht, hu⟩ := List.of_mem_zip htu
  have hlt := (of_mem_shown ht).1
  apply equals_of_render_eq (ha.of_mem_shown ht) (hb.of_mem_shown hu)
  exact render_eq_of_argument_eq (hargs.2 htu)
termination_by a.weight

end Ty

/-- Types with the same text are equal, either way, if the names of fields and type variables in it have no spaces and
parentheses. So no text stands for two types that are told apart. -/
theorem text_tells_types_apart (a b : Ty) (ha : a.NamesPlain) (hb : b.NamesPlain)
    (h : a.render = b.render) : a.equals b ∧ b.equals a :=
  ⟨Ty.equals_of_render_eq ha hb h, Ty.equals_of_render_eq hb ha h.symm⟩

/-- A record of three fields, one of them an empty record, and the pair that shows the same. -/
theorem text_tells_types_apart_record :
    let visit : Ty := .record ⟨"visit",
      [⟨"seen", .list .nat⟩, ⟨"why", .record ⟨"none", []⟩⟩, ⟨"who", .var "a"⟩]⟩
    let pair : Ty := .pair (.record ⟨"place", [⟨"seen", .list .nat⟩]⟩)
      (.record ⟨"rest", [⟨"why", .unit⟩, ⟨"who", .var "a"⟩]⟩)
    visit.render = "pair ((list nat) %seen) (pair (unit %why) ('a %who))" ∧
      pair.render = visit.render ∧ visit.equals pair ∧ pair.equals visit := by
  intro visit pair
  have hvisit : visit.render = "pair ((list nat) %seen) (pair (unit %why) ('a %who))" := by
    simp only [visit]
    cbv
  have hpair : pair.render = "pair ((list nat) %seen) (pair (unit %why) ('a %who))" := by
    simp only [pair]
    cbv
  have hsame := hvisit.trans hpair.symm
  have hnames : visit.NamesPlain ∧ pair.NamesPlain := by
    simp [visit, pair, Ty.NamesPlain, Ty.names, fieldNames, PlainName]
  obtain ⟨hequals, hsymm⟩ := text_tells_types_apart visit pair hnames.1 hnames.2 hsame
  exact ⟨hvisit, hsame.symm, hequals, hsymm⟩

end Michelson
