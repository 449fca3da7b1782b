import Mathlib.Data.List.TakeWhile
import ServiceKit.Sql2pb.Correctness.Messages
import ServiceKit.Sql2pb.Correctness.Types

/-!
# `Sql2pb.Correctness.Enums` — the values of an enumeration, and the fields of its enum

MySQL prints the values of an `enum` or a `set` between quotes, with commas between them. `parseColumn` reads up to the
first closing parenthesis and cuts at commas and quotes, wherever these stand. The values come out as they went in
exactly when each is one piece (`Readable`), up to what its name in the enum does not show (`addsEnum_iff`).
-/

namespace ServiceKit
namespace Sql2pb

open Lib

variable {U : Unicode} {W : Words}

/-! ## What MySQL prints -/

/-- A quote in a value is doubled. -/
def doubled (c : Char) : Text := if c = '\'' then ['\'', '\''] else [c]

def quoted (v : Text) : Text := '\'' :: v.flatMap doubled ++ ['\'']

def valueList (values : List Text) : Text := [','].intercalate (values.map quoted)

/-- `COLUMN_TYPE` of an `enum` or a `set`, printed with each quote doubled. MySQL escapes backslashes, newlines,
    carriage returns and NULs besides, which is not modelled. -/
def columnTypeOf (typ : Text) (values : List Text) : Text := typ ++ '(' :: (valueList values ++ [')'])

example : columnTypeOf "set".toList ["a".toList, "b'c".toList] = "set('a','b''c')".toList := by decide

def notParen (c : Char) : Bool := c ≠ ')'

/-- The list as far as it is read. -/
def readList (values : List Text) : Text := (valueList values).takeWhile notParen

theorem valueList_cons (v : Text) (vs : List Text) :
    valueList (v :: vs) = quoted v ++ if vs = [] then [] else ',' :: valueList vs := by
  cases vs with
  | nil => simp [valueList]
  | cons u us =>
      rw [valueList, List.map_cons, List.map_cons, List.intercalate_cons_cons]
      simp [valueList]

theorem takeWhile_flatMap_doubled (v : Text) :
    (v.flatMap doubled).takeWhile notParen = (v.takeWhile notParen).flatMap doubled := by
  induction v with
  | nil => rfl
  | cons c cs ih =>
      by_cases hc : c = ')'
      · subst hc
        rfl
      · have hopen : notParen c = true := decide_eq_true hc
        have hall : ∀ d ∈ doubled c, notParen d = true := by
          intro d hd
          unfold doubled at hd
          split at hd
          · next hquote =>
              have hd : d = '\'' := by simpa using hd
              rw [hd]
              decide
          · rwa [List.mem_singleton.mp hd]
        rw [List.flatMap_cons, List.takeWhile_append_of_pos hall, ih, List.takeWhile_cons_of_pos hopen, List.flatMap_cons]

theorem mem_flatMap_doubled {v : Text} {c : Char} : c ∈ v.flatMap doubled ↔ c ∈ v := by
  rw [List.mem_flatMap]
  constructor
  · rintro ⟨d, hd, hc⟩
    unfold doubled at hc
    split at hc
    · next hquote =>
        rw [hquote] at hd
        have hc : c = '\'' := by simpa using hc
        rwa [hc]
    · rwa [List.mem_singleton.mp hc]
  · intro hc
    refine ⟨c, hc, ?_⟩
    unfold doubled
    split
    · next hquote => simp [hquote]
    · exact List.mem_singleton_self c

/-- What is read of a list: a value up to a parenthesis, and the others if it has none. -/
theorem readList_cons (v : Text) (vs : List Text) :
    readList (v :: vs) = '\'' :: ((v.takeWhile notParen).flatMap doubled ++
      if ')' ∈ v then [] else '\'' :: if vs = [] then [] else ',' :: readList vs) := by
  rw [readList, valueList_cons, quoted]
  simp only [List.cons_append, List.append_assoc]
  rw [List.takeWhile_cons_of_pos (by decide), ← takeWhile_flatMap_doubled]
  congr 1
  by_cases hparen : ')' ∈ v
  · have hlen : ((v.flatMap doubled).takeWhile notParen).length ≠ (v.flatMap doubled).length := by
      intro heq
      have hall := List.takeWhile_eq_self_iff.mp
        ((List.takeWhile_prefix notParen).eq_of_length heq)
      have hmem := hall ')' (mem_flatMap_doubled.mpr hparen)
      exact absurd hmem (by decide)
    rw [List.takeWhile_append, if_neg hlen, if_pos hparen, List.append_nil]
  · have hall : ∀ c ∈ v.flatMap doubled, notParen c = true := by
      intro c hc
      refine decide_eq_true ?_
      rintro rfl
      exact hparen (mem_flatMap_doubled.mp hc)
    rw [List.takeWhile_append_of_pos hall, List.takeWhile_eq_self_iff.mpr hall, if_neg hparen,
      List.takeWhile_cons_of_pos (by decide)]
    split
    · rfl
    · rw [List.nil_append, List.takeWhile_cons_of_pos (by decide)]
      rfl

/-- The doubled quotes make no piece. -/
theorem fieldsFrom_doubled (piece v : Text) :
    fieldsFrom enumSeparator piece (v.flatMap doubled) = fieldsFrom enumSeparator piece v := by
  have hquote : enumSeparator '\'' = true := by decide
  induction v generalizing piece with
  | nil => rfl
  | cons c cs ih =>
      rw [List.flatMap_cons]
      by_cases hc : c = '\''
      · subst hc
        have hleft := fieldsFrom_append_sep hquote piece [] ('\'' :: cs.flatMap doubled)
        have hright := fieldsFrom_append_sep hquote piece [] cs
        rw [List.nil_append, fieldsFunc_cons_sep hquote, fieldsFunc, ih] at hleft
        exact hleft.trans hright.symm
      · have hone : doubled c = [c] := if_neg hc
        rw [hone, List.singleton_append, fieldsFrom, fieldsFrom, ih, ih]

theorem fieldsFunc_readList_cons (v : Text) (vs : List Text) :
    fieldsFunc enumSeparator (readList (v :: vs)) = fieldsFunc enumSeparator (v.takeWhile notParen) ++
      if ')' ∈ v then [] else fieldsFunc enumSeparator (readList vs) := by
  have hquote : enumSeparator '\'' = true := by decide
  have hcomma : enumSeparator ',' = true := by decide
  have hvalue := fieldsFrom_doubled [] (v.takeWhile notParen)
  rw [readList_cons, fieldsFunc_cons_sep hquote]
  split
  · rw [List.append_nil, List.append_nil]
    exact hvalue
  · rw [fieldsFunc_append_sep hquote]
    congr 1
    cases vs with
    | nil => rfl
    | cons u us =>
        rw [if_neg (List.cons_ne_nil u us), fieldsFunc_cons_sep hcomma]

theorem mem_readList_cons {c : Char} (hc : enumSeparator c = false) (v : Text) (vs : List Text) :
    c ∈ readList (v :: vs) ↔ c ∈ v.takeWhile notParen ∨ ')' ∉ v ∧ c ∈ readList vs := by
  have hne : c ≠ '\'' ∧ c ≠ ',' := by
    constructor
    · rintro rfl
      simp [enumSeparator] at hc
    · rintro rfl
      simp [enumSeparator] at hc
  rw [readList_cons, List.mem_cons, List.mem_append, mem_flatMap_doubled]
  by_cases hparen : ')' ∈ v
  · simp [hne, hparen]
  · cases vs with
    | nil => simp [hne, hparen, readList, valueList]
    | cons u us => simp [hne, hparen]

/-! ## The regular expression -/

theorem beforeParen_eq {s : Text} (hparen : ')' ∈ s) (hline : '\n' ∉ s.takeWhile notParen) :
    beforeParen s = some (s.takeWhile notParen) := by
  induction s with
  | nil => cases hparen
  | cons c cs ih =>
      by_cases hc : c = ')'
      · subst hc
        rfl
      · have hopen : notParen c = true := decide_eq_true hc
        rw [List.takeWhile_cons_of_pos hopen, List.mem_cons, not_or] at hline
        have hcs : ')' ∈ cs := (List.mem_cons.mp hparen).resolve_left (Ne.symm hc)
        rw [beforeParen, if_neg hc, if_neg (Ne.symm hline.1), ih hcs hline.2, List.takeWhile_cons_of_pos hopen]
        rfl

/-- A line that ends before the parenthesis. -/
theorem beforeParen_eq_none {x : Text} (hparen : ')' ∉ x) (y : Text) : beforeParen (x ++ '\n' :: y) = none := by
  induction x with
  | nil => rfl
  | cons c cs ih =>
      rw [List.mem_cons, not_or] at hparen
      rw [List.cons_append, beforeParen, if_neg (Ne.symm hparen.1), ih hparen.2]
      split
      · rfl
      · rfl

theorem parenBody_eq_none {x : Text} (hparen : ')' ∉ x) (y : Text) : parenBody (x ++ '\n' :: y) = none := by
  cases x with
  | nil => rfl
  | cons c cs =>
      rw [List.cons_append, parenBody, beforeParen_eq_none fun hmem => hparen (List.mem_cons_of_mem c hmem)]
      split
      · rfl
      · rfl

/-- One step of the search: the list begins here, or it is found in the rest. -/
theorem findEnumList_cons (c : Char) (cs : Text) :
    findEnumList (c :: cs) = findEnumList cs ∨
      ∃ body list, cs = '(' :: body ∧ parenBody body = some list ∧ findEnumList (c :: cs) = some list := by
  have hstep := findEnumList.eq_def (c :: cs)
  dsimp only at hstep
  split at hstep
  · next body =>
      split at hstep
      · cases hbody : parenBody body with
        | none =>
            rw [hbody] at hstep
            exact Or.inl hstep
        | some list =>
            rw [hbody] at hstep
            exact Or.inr ⟨body, list, rfl, hbody, hstep⟩
      · exact Or.inl hstep
  · exact Or.inl hstep

/-- Nothing is found in a line without parenthesis. -/
theorem findEnumList_line {x : Text} (hparen : ')' ∉ x) (y : Text) :
    findEnumList (x ++ '\n' :: y) = findEnumList ('\n' :: y) := by
  induction x with
  | nil => rfl
  | cons c cs ih =>
      have hcs : ')' ∉ cs := fun hmem => hparen (List.mem_cons_of_mem c hmem)
      rcases findEnumList_cons c (cs ++ '\n' :: y) with hrest | ⟨body, list, heq, hbody, -⟩
      · rw [List.cons_append, hrest, ih hcs]
      · have hnone : parenBody body = none := by
          cases cs with
          | nil => simp at heq
          | cons d ds =>
              obtain ⟨-, rfl⟩ := List.cons.inj heq
              exact parenBody_eq_none (fun hmem => hcs (List.mem_cons_of_mem d hmem)) y
        rw [hnone] at hbody
        cases hbody

theorem sublist_of_beforeParen {s l : Text} (h : beforeParen s = some l) : l.Sublist s := by
  induction s generalizing l with
  | nil => cases h
  | cons c cs ih =>
      rw [beforeParen] at h
      split at h
      · obtain rfl := Option.some.inj h
        exact List.nil_sublist _
      · split at h
        · cases h
        · obtain ⟨t, ht, rfl⟩ := Option.map_eq_some_iff.mp h
          exact (ih ht).cons_cons c

theorem sublist_of_parenBody {s l : Text} (h : parenBody s = some l) : l.Sublist s := by
  cases s with
  | nil => cases h
  | cons c cs =>
      rw [parenBody] at h
      split at h
      · cases h
      · obtain ⟨t, ht, rfl⟩ := Option.map_eq_some_iff.mp h
        exact (sublist_of_beforeParen ht).cons_cons c

/-- What is found is part of the text. -/
theorem sublist_of_findEnumList {s l : Text} (h : findEnumList s = some l) : l.Sublist s := by
  induction s with
  | nil => cases h
  | cons c cs ih =>
      rcases findEnumList_cons c cs with hrest | ⟨body, list, rfl, hbody, hlist⟩
      · rw [hrest] at h
        exact (ih h).cons c
      · rw [hlist] at h
        obtain rfl := Option.some.inj h
        exact ((sublist_of_parenBody hbody).cons '(').cons c

section Column

variable {typ : Text} (htyp : typ = "enum".toList ∨ typ = "set".toList)
include htyp

/-- The list of values is found where its first line has the parenthesis. -/
theorem findEnumList_columnTypeOf {values : List Text} (hne : values ≠ []) (hline : '\n' ∉ readList values) :
    findEnumList (columnTypeOf typ values) = some (readList values) := by
  obtain ⟨v, vs, rfl⟩ := List.exists_cons_of_ne_nil hne
  have hbody : parenBody (valueList (v :: vs) ++ [')']) = some (readList (v :: vs)) := by
    have htake : (valueList (v :: vs) ++ [')']).takeWhile notParen = readList (v :: vs) := by
      rw [List.takeWhile_append]
      split
      · next hlen =>
          have hall := (List.takeWhile_prefix notParen).eq_of_length hlen
          rw [readList, hall]
          simp [notParen]
      · rfl
    have hparen : ')' ∈ valueList (v :: vs) ++ [')'] := by simp
    rw [← htake] at hline ⊢
    rw [valueList_cons, quoted, List.cons_append, List.cons_append, List.cons_append] at hparen hline ⊢
    rw [List.takeWhile_cons_of_pos (by decide), List.mem_cons, not_or] at hline
    have hrest := (List.mem_cons.mp hparen).resolve_left (by decide)
    rw [parenBody, if_neg (by decide), beforeParen_eq hrest hline.2, List.takeWhile_cons_of_pos (by decide)]
    rfl
  rcases htyp with rfl | rfl
  · simp [columnTypeOf, findEnumList, hbody]
  · simp [columnTypeOf, findEnumList, hbody]

/-- Where its first line ends before the parenthesis, a list is found in what follows, if at all. -/
theorem sublist_of_line {values : List Text} {x y l : Text} (hlist : valueList values = x ++ '\n' :: y)
    (hparen : ')' ∉ x) (h : findEnumList (columnTypeOf typ values) = some l) : l.Sublist ('\n' :: (y ++ [')'])) := by
  have hline : findEnumList (columnTypeOf typ values) = findEnumList ('\n' :: (y ++ [')'])) := by
    have hsplit : columnTypeOf typ values = (typ ++ '(' :: x) ++ '\n' :: (y ++ [')']) := by
      simp [columnTypeOf, hlist]
    rw [hsplit]
    refine findEnumList_line ?_ _
    rcases htyp with rfl | rfl
    · simpa using hparen
    · simpa using hparen
  rw [hline] at h
  exact sublist_of_findEnumList h

end Column

/-! ## Names -/

/-- The name of the field for a value. -/
def fieldName (U : Unicode) (v : Text) : Text := squash false (v.map U.toUpper)

/-- `ident` of the protobuf language: a letter, then letters, digits and `_`. -/
def isProtoIdent : Text → Bool
  | [] => false
  | c :: cs => c.isAlpha && cs.all isWord

/-- Whether a run of other runes is being read after a text. -/
def inRunAfter : Bool → Text → Bool
  | inRun, [] => inRun
  | _, c :: cs => inRunAfter (!isWord c) cs

theorem squash_append (inRun : Bool) (x y : Text) :
    squash inRun (x ++ y) = squash inRun x ++ squash (inRunAfter inRun x) y := by
  induction x generalizing inRun with
  | nil => rfl
  | cons c cs ih =>
      rw [List.cons_append, squash, squash, inRunAfter]
      cases hc : isWord c with
      | true => exact congrArg (c :: ·) (ih false)
      | false =>
          cases inRun with
          | true => exact ih true
          | false => exact congrArg ('_' :: ·) (ih true)

theorem eq_nil_of_squash {inRun : Bool} {s : Text} (h : squash inRun s = []) : ∀ c ∈ s, isWord c = false := by
  induction s generalizing inRun with
  | nil => exact List.forall_mem_nil _
  | cons c cs ih =>
      rw [squash] at h
      cases hc : isWord c with
      | true => simp [hc] at h
      | false =>
          cases inRun with
          | true =>
              rw [hc] at h
              exact List.forall_mem_cons.mpr ⟨hc, ih h⟩
          | false => simp [hc] at h

/-- What is added to a value without a change of its name has no rune of a word. -/
theorem not_isWord_of_fieldName {x y : Text} (h : fieldName U (x ++ y) = fieldName U x) :
    ∀ c ∈ y, isWord (U.toUpper c) = false := by
  rw [fieldName, List.map_append, squash_append, fieldName, List.append_right_eq_self] at h
  intro c hc
  exact eq_nil_of_squash h (U.toUpper c) (List.mem_map_of_mem hc)

/-- The name of a field begins with a letter where that of its value does. -/
theorem exists_letter {v : Text} (h : isProtoIdent (fieldName U v) = true) :
    ∃ c cs, v = c :: cs ∧ (U.toUpper c).isAlpha = true := by
  cases v with
  | nil => cases h
  | cons c cs =>
      refine ⟨c, cs, rfl, ?_⟩
      rw [fieldName, List.map_cons, squash] at h
      cases hc : isWord (U.toUpper c) with
      | true =>
          rw [hc, if_pos rfl, isProtoIdent, Bool.and_eq_true] at h
          exact h.1
      | false =>
          rw [hc, if_neg Bool.false_ne_true, if_neg Bool.false_ne_true, isProtoIdent, Bool.and_eq_true] at h
          exact absurd h.1 (by decide)

/-! ## Letters -/

/-- How many letters and digits a text has in upper case. -/
def letters (U : Unicode) (s : Text) : Nat := (s.map U.toUpper).countP Char.isAlphanum

theorem letters_append (x y : Text) : letters U (x ++ y) = letters U x + letters U y := by
  rw [letters, List.map_append, List.countP_append]
  rfl

theorem letters_cons_of_ascii {c : Char} (hc : c.val < 128) (hletter : c.toUpper.isAlphanum = false) (s : Text) :
    letters U (c :: s) = letters U s := by
  rw [letters, List.map_cons, List.countP_cons_of_neg]
  · rfl
  · rw [U.toUpper_ascii c hc, hletter]
    exact Bool.false_ne_true

theorem letters_le {x y : Text} (h : x.Sublist y) : letters U x ≤ letters U y := (h.map U.toUpper).countP_le

theorem countP_squash (inRun : Bool) (s : Text) :
    (squash inRun s).countP Char.isAlphanum = s.countP Char.isAlphanum := by
  induction s generalizing inRun with
  | nil => rfl
  | cons c cs ih =>
      rw [squash]
      cases hc : isWord c with
      | true =>
          rw [if_pos rfl, List.countP_cons, List.countP_cons, ih]
      | false =>
          have hletter : c.isAlphanum = false := by
            rw [isWord, Bool.or_eq_false_iff] at hc
            exact hc.1
          rw [if_neg Bool.false_ne_true, List.countP_cons_of_neg (by simp [hletter])]
          cases inRun with
          | true => exact ih true
          | false =>
              rw [if_neg Bool.false_ne_true, List.countP_cons_of_neg (by decide)]
              exact ih true

/-- The names have the letters of the values. -/
theorem countP_fieldNames (xs : List Text) :
    ((xs.map (fieldName U)).flatten).countP Char.isAlphanum = letters U xs.flatten := by
  induction xs with
  | nil => rfl
  | cons x xs ih =>
      rw [List.map_cons, List.flatten_cons, List.countP_append, ih, List.flatten_cons, letters_append, fieldName,
        countP_squash]
      rfl

theorem letters_flatMap_doubled (v : Text) : letters U (v.flatMap doubled) = letters U v := by
  induction v with
  | nil => rfl
  | cons c cs ih =>
      have hone : letters U (doubled c) = letters U [c] := by
        unfold doubled
        split
        · next hquote =>
            subst hquote
            exact letters_cons_of_ascii (by decide) (by decide) _
        · rfl
      rw [List.flatMap_cons, letters_append, ih, hone, ← letters_append, List.singleton_append]

/-- Quotes and commas are no letters. -/
theorem letters_valueList (values : List Text) : letters U (valueList values) = letters U values.flatten := by
  induction values with
  | nil => rfl
  | cons v vs ih =>
      have hquoted : letters U (quoted v) = letters U v := by
        rw [quoted, List.cons_append, letters_cons_of_ascii (by decide) (by decide), letters_append,
          letters_flatMap_doubled]
        rw [letters_cons_of_ascii (c := '\'') (by decide) (by decide)]
        rfl
      rw [valueList_cons, letters_append, hquoted, List.flatten_cons, letters_append]
      split
      · next hnil =>
          rw [hnil]
          rfl
      · rw [letters_cons_of_ascii (by decide) (by decide), ih]

/-! ## Values that are read as they are -/

/-- A rune that neither cuts a value nor ends the line or the list. -/
def plain (c : Char) : Bool := !enumSeparator c && notParen c && c ≠ '\n'

/-- What follows the first piece of a value, as far as it is read. -/
def leftOver (isLast : Bool) (v : Text) : Text :=
  if isLast then (v.dropWhile plain).takeWhile notParen else v.dropWhile plain

/-- Each value is one piece, up to commas and quotes after it that its name does not show, and up to what follows a
    parenthesis in the last one. -/
def Readable (U : Unicode) : List Text → Prop
  | [] => True
  | v :: vs =>
      (fieldName U (v.takeWhile plain) = fieldName U v ∧ ∀ c ∈ leftOver vs.isEmpty v, enumSeparator c = true) ∧
        Readable U vs

theorem plain_of_letter {c : Char} (h : (U.toUpper c).isAlpha = true) : plain c = true := by
  have hne : ∀ d : Char, d.val < 128 → d.toUpper.isAlpha = false → c ≠ d := by
    rintro d hd hletter rfl
    rw [U.toUpper_ascii c hd, hletter] at h
    cases h
  have hcomma := hne ',' (by decide) (by decide)
  have hquote := hne '\'' (by decide) (by decide)
  have hparen := hne ')' (by decide) (by decide)
  have hline := hne '\n' (by decide) (by decide)
  simp [plain, enumSeparator, notParen, hcomma, hquote, hparen, hline]

/-- In a line, the first piece ends at a separator, or where the reading ends. -/
theorem takeWhile_plain {v : Text} (hline : '\n' ∉ v.takeWhile notParen) :
    (v.takeWhile notParen).takeWhile (fun c => !enumSeparator c) = v.takeWhile plain ∧
      (v.takeWhile notParen).dropWhile (fun c => !enumSeparator c) = (v.dropWhile plain).takeWhile notParen := by
  induction v with
  | nil => exact ⟨rfl, rfl⟩
  | cons c cs ih =>
      cases hopen : notParen c with
      | false =>
          have hplain : ¬plain c = true := by simp [plain, hopen]
          rw [List.takeWhile_cons_of_neg (by simp [hopen]), List.takeWhile_cons_of_neg hplain,
            List.dropWhile_cons_of_neg hplain, List.takeWhile_cons_of_neg (by simp [hopen])]
          exact ⟨rfl, rfl⟩
      | true =>
          rw [List.takeWhile_cons_of_pos hopen, List.mem_cons, not_or] at hline
          rw [List.takeWhile_cons_of_pos hopen]
          cases hsep : enumSeparator c with
          | true =>
              have hplain : ¬plain c = true := by simp [plain, hsep]
              rw [List.takeWhile_cons_of_neg (by simp [hsep]), List.takeWhile_cons_of_neg hplain,
                List.dropWhile_cons_of_neg (by simp [hsep]), List.dropWhile_cons_of_neg hplain,
                List.takeWhile_cons_of_pos hopen]
              exact ⟨rfl, rfl⟩
          | false =>
              have hplain : plain c = true := by simp [plain, hsep, hopen, Ne.symm hline.1]
              obtain ⟨htake, hdrop⟩ := ih hline.2
              rw [List.takeWhile_cons_of_pos (by simp [hsep]), List.takeWhile_cons_of_pos hplain,
                List.dropWhile_cons_of_pos (by simp [hsep]), List.dropWhile_cons_of_pos hplain, htake]
              exact ⟨rfl, hdrop⟩

/-- The pieces of a value that begins with a letter, in a line. -/
theorem fieldsFunc_value {v : Text} (hline : '\n' ∉ v.takeWhile notParen) (h : isProtoIdent (fieldName U v) = true) :
    fieldsFunc enumSeparator (v.takeWhile notParen) =
      v.takeWhile plain :: fieldsFunc enumSeparator ((v.dropWhile plain).takeWhile notParen) := by
  obtain ⟨htake, hdrop⟩ := takeWhile_plain hline
  obtain ⟨c, cs, rfl, hletter⟩ := exists_letter h
  have hpiece : (c :: cs).takeWhile plain ≠ [] := by
    rw [List.takeWhile_cons_of_pos (plain_of_letter hletter)]
    exact List.cons_ne_nil c _
  rw [← htake] at hpiece
  rw [fieldsFunc_takeWhile hpiece, htake, hdrop]

/-- What follows the first piece has no other, where the names are those of the values. -/
theorem leftOver_of_fieldName {v : Text} {vs names : List Text} (hvs : ∀ u ∈ vs, isProtoIdent (fieldName U u) = true)
    (hname : fieldName U (v.takeWhile plain) = fieldName U v)
    (hrest : (fieldsFunc enumSeparator ((v.dropWhile plain).takeWhile notParen)).map (fieldName U) ++ names =
      vs.map (fieldName U)) : ∀ c ∈ (v.dropWhile plain).takeWhile notParen, enumSeparator c = true := by
  rw [← fieldsFunc_eq_nil_iff]
  cases hpieces : fieldsFunc enumSeparator ((v.dropWhile plain).takeWhile notParen) with
  | nil => rfl
  | cons w ws =>
      exfalso
      rw [hpieces] at hrest
      -- the piece has no letter, but it has the name of the next value
      have hw : ∀ c ∈ w, isWord (U.toUpper c) = false := by
        have hsplit : fieldName U (v.takeWhile plain ++ v.dropWhile plain) = fieldName U (v.takeWhile plain) := by
          rw [List.takeWhile_append_dropWhile, hname]
        intro c hc
        apply not_isWord_of_fieldName hsplit
        have hmem : c ∈ (fieldsFunc enumSeparator ((v.dropWhile plain).takeWhile notParen)).flatten :=
          List.mem_flatten.mpr ⟨w, by rw [hpieces]; exact List.mem_cons_self, hc⟩
        rw [flatten_fieldsFunc] at hmem
        exact (List.takeWhile_sublist _).subset (List.mem_filter.mp hmem).1
      cases vs with
      | nil => simp at hrest
      | cons u us =>
          have hname : fieldName U w = fieldName U u := (List.cons.inj hrest).1
          have hident := hvs u List.mem_cons_self
          rw [← hname] at hident
          obtain ⟨c, cs, rfl, hletter⟩ := exists_letter hident
          have hnot := hw c List.mem_cons_self
          simp [isWord, Char.isAlphanum, hletter] at hnot

/-- A rune that cuts a value or its line is in what follows the first piece. -/
theorem mem_dropWhile_plain {v : Text} {x : Char} (hx : plain x = false) (hmem : x ∈ v) : x ∈ v.dropWhile plain := by
  rw [← List.takeWhile_append_dropWhile (p := plain) (l := v)] at hmem
  refine (List.mem_append.mp hmem).resolve_left fun htake => ?_
  have hplain := List.all_eq_true.mp (List.all_takeWhile (p := plain)) x htake
  rw [hx] at hplain
  cases hplain

theorem takeWhile_notParen (v : Text) :
    v.takeWhile notParen = v.takeWhile plain ++ (v.dropWhile plain).takeWhile notParen := by
  have hopen : ∀ c ∈ v.takeWhile plain, notParen c = true := by
    intro c hc
    have hplain := List.all_eq_true.mp (List.all_takeWhile (p := plain)) c hc
    simp only [plain, Bool.and_eq_true] at hplain
    exact hplain.1.2
  rw [← List.takeWhile_append_of_pos hopen, List.takeWhile_append_dropWhile]

theorem takeWhile_notParen_of_not_mem {v : Text} (hparen : ')' ∉ v) : v.takeWhile notParen = v := by
  apply List.takeWhile_eq_self_iff.mpr
  intro c hc
  refine decide_eq_true ?_
  rintro rfl
  exact hparen hc

/-- What is read after the first piece is left over. -/
theorem cut_of_leftOver {isLast : Bool} {v : Text} (h : ∀ c ∈ leftOver isLast v, enumSeparator c = true) :
    ∀ c ∈ (v.dropWhile plain).takeWhile notParen, enumSeparator c = true := by
  intro c hc
  apply h
  unfold leftOver
  split
  · exact hc
  · exact (List.takeWhile_sublist _).subset hc

theorem leftOver_of_cut {v : Text} (hparen : ')' ∉ v)
    (hcut : ∀ c ∈ (v.dropWhile plain).takeWhile notParen, enumSeparator c = true) (isLast : Bool) :
    ∀ c ∈ leftOver isLast v, enumSeparator c = true := by
  unfold leftOver
  split
  · exact hcut
  · rwa [takeWhile_notParen_of_not_mem fun hmem => hparen ((List.dropWhile_sublist _).subset hmem)] at hcut

/-- Only commas and quotes follow the first piece, so it is read in one line. -/
theorem line_of_cut {v : Text} (hcut : ∀ c ∈ (v.dropWhile plain).takeWhile notParen, enumSeparator c = true) :
    '\n' ∉ v.takeWhile notParen := by
  rw [takeWhile_notParen, List.mem_append]
  rintro (hmem | hmem)
  · exact absurd (List.all_eq_true.mp (List.all_takeWhile (p := plain)) _ hmem) (by decide)
  · exact absurd (hcut _ hmem) (by decide)

/-- **The list is read as it is** exactly when its values are readable. -/
theorem readList_iff {values : List Text} (hvalues : ∀ v ∈ values, isProtoIdent (fieldName U v) = true) :
    '\n' ∉ readList values ∧
        (fieldsFunc enumSeparator (readList values)).map (fieldName U) = values.map (fieldName U) ↔
      Readable U values := by
  induction values with
  | nil => exact ⟨fun _ => trivial, fun _ => ⟨nofun, rfl⟩⟩
  | cons v vs ih =>
      obtain ⟨hv, hvs⟩ := List.forall_mem_cons.mp hvalues
      have hih := ih hvs
      rw [mem_readList_cons (by decide), fieldsFunc_readList_cons, List.map_append, List.map_cons, Readable]
      constructor
      · rintro ⟨hline, hnames⟩
        rw [not_or, not_and] at hline
        rw [fieldsFunc_value hline.1 hv, List.map_cons, List.cons_append] at hnames
        obtain ⟨hname, hrest⟩ := List.cons.inj hnames
        have hcut := leftOver_of_fieldName hvs hname hrest
        rw [fieldsFunc_eq_nil_iff.mpr hcut, List.map_nil, List.nil_append] at hrest
        by_cases hparen : ')' ∈ v
        · rw [if_pos hparen, List.map_nil, eq_comm, List.map_eq_nil_iff] at hrest
          subst hrest
          exact ⟨⟨hname, hcut⟩, trivial⟩
        · rw [if_neg hparen] at hrest
          exact ⟨⟨hname, leftOver_of_cut hparen hcut _⟩, hih.mp ⟨hline.2 hparen, hrest⟩⟩
      · rintro ⟨⟨hname, hleft⟩, hreadable⟩
        obtain ⟨hrest, hnames⟩ := hih.mpr hreadable
        have hcut := cut_of_leftOver hleft
        have hline := line_of_cut hcut
        refine ⟨by rw [not_or, not_and]; exact ⟨hline, fun _ => hrest⟩, ?_⟩
        rw [fieldsFunc_value hline hv, fieldsFunc_eq_nil_iff.mpr hcut, List.map_cons, List.map_nil, hname,
          List.singleton_append]
        congr 1
        cases vs with
        | nil =>
            split
            · rfl
            · rfl
        | cons u us =>
            have hparen : ')' ∉ v := fun hmem => absurd (hleft _ (mem_dropWhile_plain (by decide) hmem)) (by decide)
            rw [if_neg hparen, hnames]

/-! ## Columns -/

/-- The column adds one enum, with a field for each value in order: the tags count from 0, and the names are distinct
    and identifiers. -/
def AddsEnum (U : Unicode) (W : Words) (s : Schema) (msg : Message) (col : Column) (values : List Text) : Prop :=
  ∃ s' msg' e, parseColumn U W s msg col = .ok (s', msg') ∧ s'.enums = s.enums ++ [e] ∧
    e.fields = values.zipIdx.map (fun x => newEnumField U x.1 x.2) ∧ (e.fields.map EnumField.name).Nodup ∧
    ∀ f ∈ e.fields, isProtoIdent f.name = true

/-- What a column and its values have to be for that. -/
structure EnumReadable (U : Unicode) (W : Words) (msg : Message) (col : Column) (values : List Text) : Prop where
  named : enumName W col ≠ []
  /-- The tag of the new field is free, as it is in a message whose tags count its fields. -/
  untagged : ∀ f ∈ msg.fields, f.tag ≠ msg.fields.length + 1
  readable : Readable U values
  nodup : (values.map (fieldName U)).Nodup
  idents : ∀ v ∈ values, isProtoIdent (fieldName U v) = true

theorem map_name_newEnumField (xs : List Text) (i : Nat) :
    ((xs.zipIdx i).map fun x => newEnumField U x.1 x.2).map EnumField.name = xs.map (fieldName U) := by
  induction xs generalizing i with
  | nil => rfl
  | cons x xs ih =>
      rw [List.zipIdx_cons, List.map_cons, List.map_cons, List.map_cons, ih]
      rfl

/-- The fields show the names of their values, and no more. -/
theorem map_newEnumField_eq_iff {xs ys : List Text} :
    (xs.zipIdx.map fun x => newEnumField U x.1 x.2) = (ys.zipIdx.map fun x => newEnumField U x.1 x.2) ↔
      xs.map (fieldName U) = ys.map (fieldName U) := by
  constructor
  · intro h
    rw [← map_name_newEnumField xs 0, ← map_name_newEnumField ys 0, h]
  · intro h
    have hfields : ∀ zs : List Text, (zs.zipIdx.map fun x => newEnumField U x.1 x.2) =
        (zs.map (fieldName U)).zipIdx.map fun x => ⟨x.1, x.2⟩ := by
      intro zs
      rw [List.zipIdx_map, List.map_map]
      rfl
    rw [hfields, hfields, h]

section Column

variable {s : Schema} {msg : Message} {col : Column} {values : List Text} {typ : Text}
  (htyp : typ = "enum".toList ∨ typ = "set".toList) (hdata : lower U col.dataType = typ)
include htyp hdata

theorem fieldType_enum : fieldType U W s col = (parseEnum U W s col).map fun s' => (s', enumName W col) := by
  have hplain : isInSlice ["char".toList, "varchar".toList, "text".toList, "longtext".toList, "mediumtext".toList,
      "tinytext".toList] typ = false := by
    rcases htyp with rfl | rfl
    · decide
    · decide
  have henum : isInSlice ["enum".toList, "set".toList] typ = true := by
    rcases htyp with rfl | rfl
    · decide
    · decide
  simp only [fieldType, hdata, hplain, henum, Bool.false_eq_true, if_false, if_true]
  cases parseEnum U W s col with
  | error e => rfl
  | ok s' => rfl

/-- What a column of this type does with the list that is found. -/
theorem parseColumn_enum {s' : Schema} {msg' : Message} : parseColumn U W s msg col = .ok (s', msg') ↔
    ∃ list, findEnumList col.columnType = some list ∧ enumName W col ≠ [] ∧
      msg.appendField ⟨enumName W col, col.columnName, msg.fields.length + 1, col.columnComment⟩ = .ok msg' ∧
      s' = { s with enums := s.enums ++ [⟨enumName W col, col.columnComment,
        (fieldsFunc enumSeparator list).zipIdx.map fun x => newEnumField U x.1 x.2⟩] } := by
  rw [parseColumn, fieldType_enum htyp hdata, parseEnum]
  cases findEnumList col.columnType with
  | none =>
      constructor
      · intro h
        cases h
      · rintro ⟨list, hlist, -⟩
        cases hlist
  | some list =>
      dsimp only
      rw [newEnumFromStrings_eq]
      show (if enumName W col = [] then _ else _) = _ ↔ _
      by_cases hname : enumName W col = []
      · rw [if_pos hname]
        constructor
        · intro h
          cases h
        · rintro ⟨_, _, hne, _⟩
          exact absurd hname hne
      · rw [if_neg hname]
        constructor
        · intro h
          obtain ⟨m, hm, h⟩ := bind_ok_iff.mp h
          obtain ⟨rfl, rfl⟩ := ok_pair_inj h
          exact ⟨list, rfl, hname, hm, rfl⟩
        · rintro ⟨list', hlist, -, hm, rfl⟩
          obtain rfl := Option.some.inj hlist
          exact bind_ok_iff.mpr ⟨msg', hm, rfl⟩

end Column

theorem appendField_iff {m : Message} {mf : MessageField} :
    (∃ m', m.appendField mf = .ok m') ↔ ∀ f ∈ m.fields, f.tag ≠ mf.tag := by
  unfold Message.appendField
  cases hfind : m.fields.find? (fun f => f.tag = mf.tag) with
  | none =>
      refine ⟨fun _ f hf htag => ?_, fun _ => ⟨_, rfl⟩⟩
      have hnone := List.find?_eq_none.mp hfind f hf
      exact hnone (decide_eq_true htag)
  | some f =>
      refine ⟨nofun, fun hall => ?_⟩
      have htag : f.tag = mf.tag := by simpa using List.find?_some hfind
      exact absurd htag (hall f (List.mem_of_find?_eq_some hfind))

/-- Where the line ends before the parenthesis. -/
theorem exists_line {values : List Text} (hline : '\n' ∈ readList values) :
    ∃ x rest, valueList values = x ++ '\n' :: rest ∧ ')' ∉ x := by
  obtain ⟨x, y, hread⟩ := List.append_of_mem hline
  refine ⟨x, y ++ (valueList values).dropWhile notParen, ?_, ?_⟩
  · have hsplit : readList values ++ (valueList values).dropWhile notParen = valueList values :=
      List.takeWhile_append_dropWhile
    rw [hread] at hsplit
    simpa using hsplit.symm
  · intro hmem
    have hopen := List.all_eq_true.mp (List.all_takeWhile (p := notParen)) ')'
      (by rw [← readList, hread]; exact List.mem_append_left _ hmem)
    exact absurd hopen (by decide)

/-- The first value has a letter before the line ends. -/
theorem letters_line_pos {v x rest : Text} {vs : List Text} (hv : isProtoIdent (fieldName U v) = true)
    (hlist : valueList (v :: vs) = x ++ '\n' :: rest) : 0 < letters U x := by
  obtain ⟨c, cs, rfl, hc⟩ := exists_letter hv
  have hplain := plain_of_letter hc
  have hquote : c ≠ '\'' := by
    rintro rfl
    exact absurd hplain (by decide)
  have hnewline : c ≠ '\n' := by
    rintro rfl
    exact absurd hplain (by decide)
  have hone : doubled c = [c] := if_neg hquote
  rw [valueList_cons, quoted, List.flatMap_cons, hone] at hlist
  match x with
  | [] => simp at hlist
  | [d] =>
      simp only [List.cons_append, List.nil_append, List.cons.injEq] at hlist
      exact absurd hlist.2.1 hnewline
  | d :: e :: x =>
      simp only [List.cons_append, List.nil_append, List.cons.injEq] at hlist
      rw [letters, ← hlist.2.1, List.map_cons, List.map_cons]
      refine List.countP_pos_iff.mpr ⟨U.toUpper c, by simp, ?_⟩
      rw [Char.isAlphanum, hc, Bool.true_or]

/-- The pieces of a list that is found after the first line. -/
theorem letters_pieces_le {l rest : Text} (hsub : l.Sublist ('\n' :: (rest ++ [')']))) :
    letters U (fieldsFunc enumSeparator l).flatten ≤ letters U rest := by
  have hrest : letters U ('\n' :: (rest ++ [')'])) = letters U rest := by
    rw [letters_cons_of_ascii (by decide) (by decide), letters_append,
      letters_cons_of_ascii (c := ')') (by decide) (by decide)]
    rfl
  rw [flatten_fieldsFunc, ← hrest]
  exact letters_le (List.filter_sublist.trans hsub)

/-- A list that is not read to its end, or that is found after its first line, has fewer letters. -/
theorem names_ne_of_line {values : List Text} {typ l : Text} (htyp : typ = "enum".toList ∨ typ = "set".toList)
    (hne : values ≠ []) (hvalues : ∀ v ∈ values, isProtoIdent (fieldName U v) = true) (hline : '\n' ∈ readList values)
    (hfind : findEnumList (columnTypeOf typ values) = some l) :
    (fieldsFunc enumSeparator l).map (fieldName U) ≠ values.map (fieldName U) := by
  intro hnames
  obtain ⟨x, rest, hlist, hparen⟩ := exists_line hline
  have hsub := sublist_of_line htyp hlist hparen hfind
  have hletter : 0 < letters U x := by
    obtain ⟨v, vs, rfl⟩ := List.exists_cons_of_ne_nil hne
    exact letters_line_pos (hvalues v List.mem_cons_self) hlist
  have hcount : letters U (fieldsFunc enumSeparator l).flatten = letters U values.flatten := by
    rw [← countP_fieldNames, ← countP_fieldNames, hnames]
  have hpieces := letters_pieces_le (U := U) hsub
  have hvalueList := letters_valueList (U := U) values
  rw [hlist, letters_append, letters_cons_of_ascii (by decide) (by decide)] at hvalueList
  omega

/-- **An enumeration becomes its enum** exactly when its values are readable, and their names distinct identifiers. -/
theorem addsEnum_iff (U : Unicode) (W : Words) (s : Schema) (msg : Message) (col : Column) (values : List Text)
    (typ : Text) (hne : values ≠ []) (htyp : typ = "enum".toList ∨ typ = "set".toList)
    (hdata : lower U col.dataType = typ) (hcol : col.columnType = columnTypeOf typ values) :
    AddsEnum U W s msg col values ↔ EnumReadable U W msg col values := by
  constructor
  · rintro ⟨s', msg', e, hparse, henums, hfields, hnodup, hidents⟩
    obtain ⟨list, hfind, hname, happend, rfl⟩ := (parseColumn_enum htyp hdata).mp hparse
    have he : (⟨enumName W col, col.columnComment,
        (fieldsFunc enumSeparator list).zipIdx.map fun x => newEnumField U x.1 x.2⟩ : Enum) = e :=
      List.singleton_inj.mp (List.append_cancel_left henums)
    rw [← he] at hfields
    have hnames := map_newEnumField_eq_iff.mp hfields
    have hmap : e.fields.map EnumField.name = values.map (fieldName U) := by
      rw [← he]
      show List.map EnumField.name _ = _
      rw [map_name_newEnumField, hnames]
    have hvalues : ∀ v ∈ values, isProtoIdent (fieldName U v) = true := by
      intro v hv
      have hmem : fieldName U v ∈ e.fields.map EnumField.name := by
        rw [hmap]
        exact List.mem_map_of_mem hv
      obtain ⟨f, hf, hfname⟩ := List.mem_map.mp hmem
      rw [← hfname]
      exact hidents f hf
    rw [hcol] at hfind
    have hline : '\n' ∉ readList values := fun hline => names_ne_of_line htyp hne hvalues hline hfind hnames
    rw [findEnumList_columnTypeOf htyp hne hline] at hfind
    obtain rfl := Option.some.inj hfind
    exact ⟨hname, appendField_iff.mp ⟨msg', happend⟩, (readList_iff hvalues).mp ⟨hline, hnames⟩, hmap ▸ hnodup, hvalues⟩
  · rintro ⟨hname, huntagged, hreadable, hnodup, hvalues⟩
    obtain ⟨hline, hnames⟩ := (readList_iff hvalues).mpr hreadable
    obtain ⟨msg', happend⟩ := (@appendField_iff msg
      ⟨enumName W col, col.columnName, msg.fields.length + 1, col.columnComment⟩).mpr huntagged
    have hfind : findEnumList col.columnType = some (readList values) := by
      rw [hcol]
      exact findEnumList_columnTypeOf htyp hne hline
    refine ⟨_, msg', _, (parseColumn_enum htyp hdata).mpr ⟨_, hfind, hname, happend, rfl⟩, rfl,
      map_newEnumField_eq_iff.mpr hnames, ?_, ?_⟩
    · show (List.map EnumField.name _).Nodup
      rw [map_name_newEnumField, hnames]
      exact hnodup
    · intro f hf
      have hmem : f.name ∈ values.map (fieldName U) := by
        rw [← hnames, ← map_name_newEnumField _ 0]
        exact List.mem_map_of_mem hf
      obtain ⟨v, hv, heq⟩ := List.mem_map.mp hmem
      rw [← heq]
      exact hvalues v hv

/-! ## The roles of users -/

/-- The column `role` of the table `user`. -/
def roleColumn (values : List String) : Column :=
  ⟨"user".toList, [], "role".toList, "enum".toList, columnTypeOf "enum".toList (values.map String.toList), []⟩

theorem addsEnum_iff_roles :
    AddsEnum Unicode.ascii capitalizing ⟨[], [], []⟩ ⟨"User".toList, [], [], []⟩ (roleColumn ["admin", "read only"])
      ["admin".toList, "read only".toList] :=
  (addsEnum_iff Unicode.ascii capitalizing ⟨[], [], []⟩ ⟨"User".toList, [], [], []⟩ (roleColumn ["admin", "read only"])
    ["admin".toList, "read only".toList] "enum".toList (List.cons_ne_nil _ _) (Or.inl rfl) (by decide) rfl).mpr
    ⟨by decide, List.forall_mem_nil _,
      ⟨⟨by decide, List.all_eq_true.mp (by decide)⟩, ⟨by decide, List.all_eq_true.mp (by decide)⟩, trivial⟩, by decide,
      by decide⟩

/-- A comma in a value makes two fields of it. -/
theorem not_addsEnum :
    ¬∀ (U : Unicode) (W : Words) (s : Schema) (msg : Message) (col : Column) (values : List Text) (typ : Text),
      values ≠ [] → values.Nodup → typ = "enum".toList ∨ typ = "set".toList → lower U col.dataType = typ →
      col.columnType = columnTypeOf typ values → AddsEnum U W s msg col values := by
  intro h
  obtain ⟨s', msg', e, hparse, henums, hfields, -⟩ :=
    h Unicode.ascii capitalizing ⟨[], [], []⟩ ⟨"User".toList, [], [], []⟩ (roleColumn ["read, write"])
      ["read, write".toList] "enum".toList (List.cons_ne_nil _ _) (by decide) (Or.inl rfl) (by decide) rfl
  have hcount : (parseColumn Unicode.ascii capitalizing ⟨[], [], []⟩ ⟨"User".toList, [], [], []⟩
      (roleColumn ["read, write"])).toOption.map (fun r => r.1.enums.map fun e => e.fields.length) = some [2] := by
    decide
  rw [hparse] at hcount
  have hlength : s'.enums.map (fun e => e.fields.length) = [2] := Option.some.inj hcount
  rw [henums, List.nil_append, List.map_singleton, hfields] at hlength
  exact absurd hlength (by decide)

end Sql2pb
end ServiceKit
