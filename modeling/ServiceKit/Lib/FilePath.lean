import ServiceKit.Lib.Text

/-!
# `Lib.FilePath` — slash-separated paths

Package `path/filepath` on Unix. A cleaned absolute path is the list of its names from the root, a path relative to
another directory is how far up it goes and the names down from there (`RelPath`); `Name` carries what makes a text
a name. `rel` is `filepath.Rel` between two cleaned absolute paths.
-/

namespace ServiceKit
namespace Lib

/-- What a directory can hold an entry under. -/
structure Name where
  chars : Text
  ne_nil : chars ≠ []
  noSlash : '/' ∉ chars
  notDot : chars ≠ ".".toList
  notDotDot : chars ≠ "..".toList
deriving DecidableEq

/-- A cleaned absolute path. -/
abbrev AbsPath := List Name

namespace FilePath

def nameOf (t : Text) : Option Name :=
  if h : t ≠ [] ∧ '/' ∉ t ∧ t ≠ ".".toList ∧ t ≠ "..".toList then some ⟨t, h.1, h.2.1, h.2.2.1, h.2.2.2⟩ else none

/-- One element of a path that is not cleaned: empty and `.` stay, `..` goes up. -/
def descend (p : AbsPath) (element : Text) : AbsPath :=
  if element = "..".toList then p.dropLast
  else
    match nameOf element with
    | some n => p ++ [n]
    | none => p

/-- `filepath.Abs`, in a process whose working directory is `cwd`. -/
def abs (cwd : AbsPath) (path : Text) : AbsPath :=
  match path with
  | '/' :: rest => (rest.splitOn '/').foldl descend []
  | _ => (path.splitOn '/').foldl descend cwd

/-- A cleaned absolute path as a string. -/
def absText (p : AbsPath) : Text := '/' :: ['/'].intercalate (p.map Name.chars)

/-- `filepath.Base`. -/
def base (path : Text) : Text :=
  match ((path.splitOn '/').filter (· ≠ [])).getLast? with
  | some element => element
  | none => if path = [] then ".".toList else "/".toList

/-- `filepath.Ext` of a name: what follows its last dot, and the dot. -/
def ext (name : Text) : Text :=
  if '.' ∈ name then '.' :: (name.reverse.takeWhile (· ≠ '.')).reverse else []

/-- A cleaned relative path: `ups` times `..`, then `names`. -/
structure RelPath where
  ups : Nat
  names : List Name
deriving DecidableEq

/-- `filepath.Rel(basepath, targpath)`. -/
def rel : AbsPath → AbsPath → RelPath
  | b :: bs, t :: ts => if b = t then rel bs ts else ⟨(b :: bs).length, t :: ts⟩
  | bs, ts => ⟨bs.length, ts⟩

def RelPath.elements (r : RelPath) : List Text := List.replicate r.ups "..".toList ++ r.names.map Name.chars

/-- The path as a string. -/
def RelPath.text (r : RelPath) : Text :=
  if r.elements = [] then ".".toList else ['/'].intercalate r.elements

/-- `filepath.Base` of a cleaned relative path. -/
def RelPath.base (r : RelPath) : Text := r.elements.getLast?.getD ".".toList

/-- `filepath.Dir` of a cleaned relative path. -/
def RelPath.dir (r : RelPath) : RelPath :=
  if r.names = [] then ⟨r.ups - 1, []⟩ else ⟨r.ups, r.names.dropLast⟩

/-! ## Names have no slash -/

theorem RelPath.noSlash_of_mem {r : RelPath} {e : Text} (h : e ∈ r.elements) : '/' ∉ e := by
  rcases List.mem_append.mp h with h | h
  · rw [List.eq_of_mem_replicate h]
    decide
  · obtain ⟨n, _, rfl⟩ := List.mem_map.mp h
    exact n.noSlash

theorem RelPath.noSlash_base (r : RelPath) : '/' ∉ r.base := by
  rw [RelPath.base]
  cases h : r.elements.getLast? with
  | none => decide
  | some e => exact RelPath.noSlash_of_mem (List.mem_of_getLast? h)

/-! ## The elements of a path -/

theorem RelPath.ne_nil_of_mem {r : RelPath} {e : Text} (h : e ∈ r.elements) : e ≠ [] ∧ e ≠ ".".toList := by
  rcases List.mem_append.mp h with h | h
  · rw [List.eq_of_mem_replicate h]
    decide
  · obtain ⟨n, _, rfl⟩ := List.mem_map.mp h
    exact ⟨n.ne_nil, n.notDot⟩

/-- A path is split into its elements, but for the path `.`. -/
theorem RelPath.splitOn_text (r : RelPath) :
    r.text.splitOn '/' = if r.elements = [] then [".".toList] else r.elements := by
  unfold RelPath.text
  split
  · decide
  · next hne => exact List.splitOn_intercalate '/' (fun e he => RelPath.noSlash_of_mem he) hne

/-- A path is known by its text. -/
theorem RelPath.elements_inj {r r' : RelPath} (h : r.text = r'.text) : r.elements = r'.elements := by
  have hdot : ∀ r : RelPath, r.elements ≠ [".".toList] := by
    intro r heq
    exact (RelPath.ne_nil_of_mem (r := r) (by rw [heq]; exact List.mem_singleton.mpr (Eq.refl _))).2 (Eq.refl _)
  have hsplit : r.text.splitOn '/' = r'.text.splitOn '/' := by rw [h]
  rw [RelPath.splitOn_text, RelPath.splitOn_text] at hsplit
  split at hsplit
  · next hnil =>
      split at hsplit
      · next hnil' => rw [hnil, hnil']
      · exact absurd hsplit.symm (hdot r')
  · split at hsplit
    · exact absurd hsplit (hdot r)
    · exact hsplit

theorem Name.chars_injective : Function.Injective Name.chars := by
  rintro ⟨c, _, _, _, _⟩ ⟨c', _, _, _, _⟩ h
  simpa using h

/-- A path below where it starts is known by its text. -/
theorem RelPath.text_injective : Function.Injective fun names : List Name => (RelPath.mk 0 names).text := by
  intro names names' h
  have helements := RelPath.elements_inj h
  simp only [RelPath.elements, List.replicate_zero, List.nil_append] at helements
  exact (List.map_injective_iff.mpr Name.chars_injective) helements

/-! ## Below a directory -/

/-- `rel` goes up to where the two paths part, and then down. -/
theorem rel_spec (b t : AbsPath) :
    ∃ common bs, b = common ++ bs ∧ bs.length = (rel b t).ups ∧ t = common ++ (rel b t).names := by
  induction b generalizing t with
  | nil => exact ⟨[], [], by simp [rel]⟩
  | cons n b ih =>
      cases t with
      | nil => exact ⟨[], n :: b, by simp [rel]⟩
      | cons k t =>
          by_cases hnk : n = k
          · obtain ⟨common, bs, hb, hups, ht⟩ := ih t
            refine ⟨n :: common, bs, ?_, ?_, ?_⟩
            · rw [List.cons_append, ← hb]
            · rw [rel, if_pos hnk]
              exact hups
            · rw [rel, if_pos hnk, List.cons_append, ← ht, hnk]
          · exact ⟨[], n :: b, by simp [rel, hnk]⟩

theorem rel_append (b names : AbsPath) : rel b (b ++ names) = ⟨0, names⟩ := by
  induction b with
  | nil => simp [rel]
  | cons n b ih =>
      rw [List.cons_append, rel, if_pos (Eq.refl n)]
      exact ih

theorem eq_append_of_ups {b t : AbsPath} (h : (rel b t).ups = 0) : t = b ++ (rel b t).names := by
  obtain ⟨common, bs, hb, hups, ht⟩ := rel_spec b t
  have hbs : bs = [] := List.length_eq_zero_iff.mp (hups.trans h)
  rw [hbs, List.append_nil] at hb
  rwa [hb] at ht ⊢

theorem RelPath.text_ne_nil (r : RelPath) : r.text ≠ [] := by
  intro hnil
  have hsplit := RelPath.splitOn_text r
  rw [hnil, List.splitOn_nil] at hsplit
  split at hsplit
  · exact absurd hsplit (by decide)
  · exact (RelPath.ne_nil_of_mem (r := r) (e := []) (hsplit ▸ List.mem_singleton.mpr (Eq.refl _))).1 (Eq.refl _)

theorem intercalate_concat {es : List Text} (hes : es ≠ []) (e : Text) :
    ['/'].intercalate (es ++ [e]) = ['/'].intercalate es ++ '/' :: e := by
  induction es with
  | nil => exact absurd (Eq.refl []) hes
  | cons e' es ih =>
      cases hrest : es with
      | nil => simp [List.intercalate_cons_cons]
      | cons e'' es' =>
          have hne : es ≠ [] := by simp [hrest]
          rw [← hrest, List.cons_append, List.intercalate_cons_of_ne_nil (by simp), ih hne,
            List.intercalate_cons_of_ne_nil hne]
          simp

theorem mem_intercalate {es : List Text} {e : Text} {c : Char} (he : e ∈ es) (hc : c ∈ e) :
    c ∈ ['/'].intercalate es := by
  induction es with
  | nil => exact absurd he List.not_mem_nil
  | cons e' es ih =>
      rcases List.mem_cons.mp he with rfl | he
      · cases es with
        | nil => simpa using hc
        | cons e'' es =>
            rw [List.intercalate_cons_cons, List.append_assoc]
            exact List.mem_append_left _ hc
      · rw [List.intercalate_cons_of_ne_nil (List.ne_nil_of_mem he), List.append_assoc]
        exact List.mem_append_right _ (List.mem_append_right _ (ih he))

theorem map_intercalate {f : Char → Char} (hf : f '/' = '/') (es : List Text) :
    (['/'].intercalate es).map f = ['/'].intercalate (es.map (List.map f)) := by
  induction es with
  | nil => simp
  | cons e es ih =>
      cases hrest : es with
      | nil => simp
      | cons e' es' =>
          have hne : es ≠ [] := by simp [hrest]
          rw [← hrest, List.intercalate_cons_of_ne_nil hne, List.map_cons,
            List.intercalate_cons_of_ne_nil (by simpa using hne), ← ih]
          simp [hf]

/-- The text of a path that goes down from where it starts. -/
theorem RelPath.text_down {names : List Name} (hne : names ≠ []) :
    (RelPath.mk 0 names).text = ['/'].intercalate (names.map Name.chars) := by
  rw [RelPath.text, RelPath.elements, List.replicate_zero, List.nil_append, if_neg (by simpa using hne)]

theorem RelPath.text_concat {names : List Name} (hne : names ≠ []) (n : Name) :
    (RelPath.mk 0 (names ++ [n])).text = (RelPath.mk 0 names).text ++ '/' :: n.chars := by
  rw [text_down (by simp), text_down hne, List.map_append, List.map_singleton, intercalate_concat (by simpa using hne)]

theorem RelPath.mem_text {names : List Name} {n : Name} {c : Char} (hn : n ∈ names) (hc : c ∈ n.chars) :
    c ∈ (RelPath.mk 0 names).text := by
  rw [text_down (List.ne_nil_of_mem hn)]
  exact mem_intercalate (List.mem_map_of_mem hn) hc

theorem RelPath.text_map {names names' : List Name} {f : Char → Char} (hf : f '/' = '/') (hne : names ≠ [])
    (h : names'.map Name.chars = names.map fun n => n.chars.map f) :
    (RelPath.mk 0 names').text = (RelPath.mk 0 names).text.map f := by
  have hne' : names' ≠ [] := by
    rintro rfl
    exact hne (by simpa using h.symm)
  rw [text_down hne, text_down hne', map_intercalate hf, h, List.map_map]
  rfl

/-- What lies directly in a directory, by its text. -/
theorem RelPath.text_eq_iff {names path : List Name} (hne : names ≠ []) :
    (∃ e, (RelPath.mk 0 path).text = (RelPath.mk 0 names).text ++ '/' :: e ∧ '/' ∉ e) ↔ ∃ n, path = names ++ [n] := by
  constructor
  · rintro ⟨e, htext, he⟩
    have hsplit : (RelPath.mk 0 path).text.splitOn '/' = names.map Name.chars ++ [e] := by
      rw [htext, List.splitOn_append_cons_self, List.splitOn_eq_singleton he, splitOn_text,
        if_neg (by simpa [elements] using hne)]
      simp [elements]
    rw [splitOn_text] at hsplit
    split at hsplit
    · have hlen := congrArg List.length hsplit
      have hpos := List.length_pos_iff.mpr hne
      simp only [List.length_append, List.length_map, List.length_cons, List.length_nil] at hlen
      omega
    · have helements : path.map Name.chars = names.map Name.chars ++ [e] := by simpa [elements] using hsplit
      obtain ⟨front, last, rfl, hfront, hlast⟩ := List.map_eq_append_iff.mp helements
      obtain ⟨n, rfl, -⟩ := List.map_eq_singleton_iff.mp hlast
      exact ⟨n, by rw [(List.map_injective_iff.mpr Name.chars_injective) hfront]⟩
  · rintro ⟨n, rfl⟩
    exact ⟨n.chars, text_concat hne n, n.noSlash⟩

theorem base_absText (p : AbsPath) (n : Name) : base (absText (p ++ [n])) = n.chars := by
  have hsplit : (absText (p ++ [n])).splitOn '/' = [] :: (p ++ [n]).map Name.chars := by
    have hnames : ∀ e ∈ (p ++ [n]).map Name.chars, '/' ∉ e := by
      intro e he
      obtain ⟨k, -, rfl⟩ := List.mem_map.mp he
      exact k.noSlash
    have hcons := List.splitOn_append_cons_self (a := '/') [] (['/'].intercalate ((p ++ [n]).map Name.chars))
    rw [List.splitOn_intercalate '/' hnames (by simp)] at hcons
    exact hcons
  rw [base, hsplit, List.map_append, List.map_singleton, ← List.cons_append, List.filter_append]
  simp [n.ne_nil]

/-- An extension is part of its name. -/
theorem ext_subset (name : Text) : ext name ⊆ name := by
  rw [ext]
  split
  · next hdot =>
      intro c hc
      rcases List.mem_cons.mp hc with rfl | hc
      · exact hdot
      · exact List.mem_reverse.mp ((List.takeWhile_sublist _).subset (List.mem_reverse.mp hc))
  · exact List.nil_subset name

end FilePath
end Lib
end ServiceKit
