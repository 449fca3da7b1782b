import ServiceKit.Lib.Separated
import ServiceKit.Sql2pb.Correctness.Messages

/-!
# `Sql2pb.Correctness.SnakeNames` — which column names the style `sql_pb` keeps

The style takes a column name to camel case and back. Camel case drops the underscores, snake case puts one before
each upper case rune, so the underscore before a word comes back exactly when the word begins with a rune that has a
title case to be told by (`Cased`): a letter, mostly, and never a digit.
-/

namespace ServiceKit
namespace Sql2pb

open Lib

/-! ## Lower snake case -/

/-- A letter or a digit, in lower case. -/
structure WordRune (U : Unicode) (c : Char) : Prop where
  alnum : U.isLetter c = true ∨ U.isDigit c = true
  /-- As is so of every letter and digit. -/
  notSpace : isSpace c = false
  notUpper : U.isUpper c = false
  lower : U.toLower c = c

instance (U : Unicode) (c : Char) : Decidable (WordRune U c) :=
  decidable_of_iff
    ((U.isLetter c = true ∨ U.isDigit c = true) ∧ isSpace c = false ∧ U.isUpper c = false ∧ U.toLower c = c)
    ⟨fun h => ⟨h.1, h.2.1, h.2.2.1, h.2.2.2⟩, fun h => ⟨h.alnum, h.notSpace, h.notUpper, h.lower⟩⟩

def IsWord (U : Unicode) (w : Text) : Prop := w ≠ [] ∧ ∀ c ∈ w, WordRune U c

instance (U : Unicode) (w : Text) : Decidable (IsWord U w) :=
  decidable_of_iff (w ≠ [] ∧ w.Forall (WordRune U)) (and_congr_right fun _ => List.forall_iff_forall_mem)

/-- Words joined by single underscores. -/
def LowerSnake (U : Unicode) (name : Text) : Prop :=
  ∃ words, words ≠ [] ∧ (∀ w ∈ words, IsWord U w) ∧ name = ['_'].intercalate words

/-- The rune is the lower case of its title case, which is upper case. -/
def Cased (U : Unicode) (c : Char) : Prop := U.isUpper (U.toTitle c) = true ∧ U.toLower (U.toTitle c) = c

/-- Each word after the first begins with such a rune. -/
def LaterWordsCased (U : Unicode) (name : Text) : Prop :=
  ∀ w ∈ (fieldsFunc (fun r => r = '_') name).tail, ∀ c, w.head? = some c → Cased U c

variable {U : Unicode}

theorem WordRune.ne_underscore {c : Char} (h : WordRune U c) : c ≠ '_' := by
  rintro rfl
  rcases h.alnum with hletter | hdigit
  · rw [U.isLetter_ascii '_' (by decide)] at hletter
    exact absurd hletter (by decide)
  · rw [U.isDigit_ascii '_' (by decide)] at hdigit
    exact absurd hdigit (by decide)

theorem WordRune.not_isSeparator {c : Char} (h : WordRune U c) : isSeparator U c = false := by
  rw [isSeparator]
  split
  · next hascii =>
      have hlt : c.val < 128 := UInt32.lt_of_le_of_lt hascii (by decide)
      have halnum : c.isAlphanum = true := by
        rw [Char.isAlphanum, ← U.isLetter_ascii c hlt, ← U.isDigit_ascii c hlt]
        exact Bool.or_eq_true_iff.mpr h.alnum
      rw [halnum]
      rfl
  · rw [if_pos (Bool.or_eq_true_iff.mpr h.alnum)]

theorem IsWord.not_blank {w : Text} (h : IsWord U w) : isEmptyOrSpace w = false := by
  obtain ⟨c, cs, rfl⟩ := List.exists_cons_of_ne_nil h.1
  exact isEmptyOrSpace_of_mem List.mem_cons_self (h.2 c List.mem_cons_self).notSpace

theorem fieldsFunc_words {words : List Text} (h : ∀ w ∈ words, IsWord U w) :
    fieldsFunc (fun r => r = '_') (['_'].intercalate words) = words :=
  fieldsFunc_intercalate (by decide)
    fun w hw => ⟨(h w hw).1, fun c hc => decide_eq_false ((h w hw).2 c hc).ne_underscore⟩

/-! ## A word -/

/-- What the round trip makes of a word after the first, with the underscore before it. -/
def rejoined (U : Unicode) : Text → Text
  | [] => []
  | c :: cs => snakeRune U (U.toTitle c) ++ cs

/-- Title case changes the first rune of a word. -/
theorem title_word {c : Char} {cs : Text} (h : IsWord U (c :: cs)) : title U (c :: cs) = U.toTitle c :: cs := by
  have hrest : ∀ (prev : Char) (ds : Text), WordRune U prev → (∀ d ∈ ds, WordRune U d) → titleFrom U prev ds = ds := by
    intro prev ds hprev hds
    induction ds generalizing prev with
    | nil => rfl
    | cons d ds ih =>
        have hd := hds d List.mem_cons_self
        rw [titleFrom, hprev.not_isSeparator, ih d hd (fun e he => hds e (List.mem_cons_of_mem d he))]
        rfl
  have hc := h.2 c List.mem_cons_self
  have hspace : isSeparator U ' ' = true := by
    rw [isSeparator, if_pos (by decide)]
    decide
  rw [title, h.not_blank, if_neg Bool.false_ne_true, titleFrom, hspace, if_pos (Eq.refl _),
    hrest c cs hc (fun d hd => h.2 d (List.mem_cons_of_mem c hd))]

theorem flatMap_snakeRune_title {w : Text} (h : IsWord U w) : (title U w).flatMap (snakeRune U) = rejoined U w := by
  obtain ⟨c, cs, rfl⟩ := List.exists_cons_of_ne_nil h.1
  have hlower : ∀ d ∈ cs, U.toLower d = d ∧ U.isUpper d = false := fun d hd =>
    have hd := h.2 d (List.mem_cons_of_mem c hd)
    ⟨hd.lower, hd.notUpper⟩
  rw [title_word h, List.flatMap_cons, flatMap_snakeRune_lower hlower, rejoined]

theorem length_rejoined_le (U : Unicode) (w : Text) : (rejoined U w).length ≤ ('_' :: w).length := by
  cases w with
  | nil => exact Nat.zero_le _
  | cons c cs =>
      rw [rejoined, snakeRune]
      split
      · simp
      · simp

/-- **The underscore comes back** before the words that begin with a rune that is told by its title case. -/
theorem rejoined_eq_iff {c : Char} {cs : Text} : rejoined U (c :: cs) = '_' :: c :: cs ↔ Cased U c := by
  rw [rejoined, snakeRune, Cased]
  cases hup : U.isUpper (U.toTitle c) with
  | true => simp
  | false =>
      refine iff_of_false ?_ (fun h => absurd h.1 Bool.false_ne_true)
      intro heq
      have hlen := congrArg List.length heq
      simp at hlen

/-! ## A name -/

theorem intercalate_words (w : Text) (ws : List Text) :
    ['_'].intercalate (w :: ws) = w ++ ws.flatMap (fun v => '_' :: v) := by
  induction ws generalizing w with
  | nil => simp
  | cons v vs ih =>
      rw [List.intercalate_cons_cons, ih, List.flatMap_cons]
      simp

theorem toCamel_words {w : Text} {ws : List Text} (h : ∀ v ∈ w :: ws, IsWord U v) :
    toCamelWithStartLower U (['_'].intercalate (w :: ws)) = w ++ (ws.map (title U)).flatten := by
  have hblank : isEmptyOrSpace (['_'].intercalate (w :: ws)) = false := by
    obtain ⟨c, hc⟩ := List.exists_mem_of_ne_nil w (h w List.mem_cons_self).1
    rw [intercalate_words]
    exact isEmptyOrSpace_of_mem (List.mem_append_left _ hc) ((h w List.mem_cons_self).2 c hc).notSpace
  rw [toCamelWithStartLower, splitBy, hblank, if_neg Bool.false_ne_true, splitFrom_remove, ← fieldsFunc,
    fieldsFunc_words h]

/-- **The round trip of a name**, word by word. -/
theorem toSnake_toCamel_words {w : Text} {ws : List Text} (h : ∀ v ∈ w :: ws, IsWord U v) :
    toSnake U (toCamelWithStartLower U (['_'].intercalate (w :: ws))) = w ++ ws.flatMap (rejoined U) := by
  have hw := h w List.mem_cons_self
  rw [toCamel_words h]
  obtain ⟨c, cs, rfl⟩ := List.exists_cons_of_ne_nil hw.1
  have hc := hw.2 c List.mem_cons_self
  have hcs : ∀ d ∈ cs, U.toLower d = d ∧ U.isUpper d = false := fun d hd =>
    have hd := hw.2 d (List.mem_cons_of_mem c hd)
    ⟨hd.lower, hd.notUpper⟩
  have htail : (ws.map (title U)).flatten.flatMap (snakeRune U) = ws.flatMap (rejoined U) := by
    rw [← List.flatMap_def, List.flatMap_assoc]
    exact List.flatMap_congr fun v hv => flatMap_snakeRune_title (h v (List.mem_cons_of_mem _ hv))
  rw [List.cons_append, toSnake_eq (isEmptyOrSpace_of_mem List.mem_cons_self hc.notSpace), List.flatMap_append,
    flatMap_snakeRune_lower hcs, htail, hc.lower, List.cons_append]

/-- **The round trip** gives a name back when each underscore is told by the word after it. -/
theorem toSnake_toCamel_eq_iff {name : Text} (h : LowerSnake U name) :
    toSnake U (toCamelWithStartLower U name) = name ↔ LaterWordsCased U name := by
  obtain ⟨words, hne, hwords, rfl⟩ := h
  obtain ⟨w, ws, rfl⟩ := List.exists_cons_of_ne_nil hne
  rw [toSnake_toCamel_words hwords, LaterWordsCased, fieldsFunc_words hwords, intercalate_words,
    List.append_right_inj, flatMap_eq_flatMap_iff (fun v _ => length_rejoined_le U v), List.tail_cons]
  apply forall₂_congr
  intro v hv
  obtain ⟨c, cs, rfl⟩ := List.exists_cons_of_ne_nil (hwords v (List.mem_cons_of_mem w hv)).1
  rw [rejoined_eq_iff]
  simp

/-! ## The columns of a table -/

/-- The style keeps the names of the columns of a message, in itself and where the default message is printed, and takes
    no two of them for one. -/
structure KeepsColumns (U : Unicode) (m : Message) : Prop where
  roundTrip : ∀ f ∈ m.fields, toSnake U (toCamelWithStartLower U f.name) = f.name
  default : ∀ p ∈ m.genDefaultMessage U,
    p.fields.map MessageField.name = (m.fields.map MessageField.name).filter (fun n => !isInSlice hiddenColumns n)
  apart : ∀ f ∈ m.fields, ∀ g ∈ m.fields, f.name ≠ g.name → convertName U m.style f.name ≠ convertName U m.style g.name

theorem KeepsColumns.of_roundTrip {m : Message} (hstyle : m.style = fieldStyleToSnake)
    (h : ∀ f ∈ m.fields, toSnake U (toCamelWithStartLower U f.name) = f.name) : KeepsColumns U m := by
  have hconvert : ∀ f ∈ m.fields, convertName U m.style f.name = f.name := by
    intro f hf
    rw [convertName, if_pos hstyle, h f hf]
  refine ⟨h, ?_, ?_⟩
  · intro p hp
    rw [List.mem_singleton.mp hp]
    show (renumber U m.style hiddenColumns 0 m.fields).map MessageField.name = _
    rw [renumber_names]
    refine List.map_congr_left (g := id) ?_ |>.trans (List.map_id _)
    intro n hn
    obtain ⟨f, hf, rfl⟩ := List.mem_map.mp (List.mem_of_mem_filter hn)
    exact hconvert f hf
  · intro f hf g hg hne
    rw [hconvert f hf, hconvert g hg]
    exact hne

/-- **Field names of the style `sql_pb`.** A name in lower snake case is given back, and the columns of a message keep
    their names, exactly when each word after the first begins with a rune that is told by its title case. -/
theorem snakeNames_iff (U : Unicode) :
    (∀ name, LowerSnake U name → (toSnake U (toCamelWithStartLower U name) = name ↔ LaterWordsCased U name)) ∧
      ∀ m : Message, m.style = fieldStyleToSnake → (∀ f ∈ m.fields, LowerSnake U f.name) →
        (KeepsColumns U m ↔ ∀ f ∈ m.fields, LaterWordsCased U f.name) := by
  refine ⟨fun name => toSnake_toCamel_eq_iff, ?_⟩
  intro m hstyle hlower
  constructor
  · intro h f hf
    exact (toSnake_toCamel_eq_iff (hlower f hf)).mp (h.roundTrip f hf)
  · intro h
    apply KeepsColumns.of_roundTrip hstyle
    intro f hf
    exact (toSnake_toCamel_eq_iff (hlower f hf)).mpr (h f hf)

/-- A message of the style `sql_pb` with these columns. -/
def snakeMessage (names : List Text) : Message :=
  ⟨"User".toList, [], fieldStyleToSnake, names.mapIdx fun i name => ⟨"string".toList, name, i + 1, []⟩⟩

theorem lowerSnake_userName : LowerSnake Unicode.ascii "user_name".toList :=
  ⟨["user".toList, "name".toList], List.cons_ne_nil _ _, List.forall_iff_forall_mem.mp (by decide), by decide⟩

theorem lowerSnake_createTime : LowerSnake Unicode.ascii "create_time".toList :=
  ⟨["create".toList, "time".toList], List.cons_ne_nil _ _, List.forall_iff_forall_mem.mp (by decide), by decide⟩

theorem snakeNames_iff_userName :
    KeepsColumns Unicode.ascii (snakeMessage ["user_name".toList, "create_time".toList]) := by
  refine ((snakeNames_iff Unicode.ascii).2 (snakeMessage ["user_name".toList, "create_time".toList]) rfl ?_).mpr ?_
  · intro f hf
    rcases List.mem_pair.mp hf with rfl | rfl
    · exact lowerSnake_userName
    · exact lowerSnake_createTime
  · intro f hf w hw c hc
    rcases List.mem_pair.mp hf with rfl | rfl
    · have hw : w = "name".toList := List.mem_singleton.mp hw
      subst hw
      have hc : 'n' = c := Option.some.inj hc
      rw [← hc]
      exact ⟨by decide, by decide⟩
    · have hw : w = "time".toList := List.mem_singleton.mp hw
      subst hw
      have hc : 't' = c := Option.some.inj hc
      rw [← hc]
      exact ⟨by decide, by decide⟩

/-- The digit that begins the second word has no title case. -/
theorem lowerSnake_user2 : LowerSnake Unicode.ascii "user_2".toList ∧ LowerSnake Unicode.ascii "user2".toList :=
  ⟨⟨["user".toList, "2".toList], List.cons_ne_nil _ _, List.forall_iff_forall_mem.mp (by decide), by decide⟩,
    ⟨["user2".toList], List.cons_ne_nil _ _, List.forall_iff_forall_mem.mp (by decide), by decide⟩⟩

/-- The underscore before a digit is lost, and the columns `user_2` and `user2` become one field. -/
theorem not_snakeNames :
    (¬∀ (U : Unicode) (name : Text), LowerSnake U name → toSnake U (toCamelWithStartLower U name) = name) ∧
      ¬∀ (U : Unicode) (m : Message), m.style = fieldStyleToSnake → (∀ f ∈ m.fields, LowerSnake U f.name) →
        KeepsColumns U m := by
  constructor
  · intro h
    exact absurd (h Unicode.ascii "user_2".toList lowerSnake_user2.1) (by decide)
  · intro h
    have hlower : ∀ f ∈ (snakeMessage ["user_2".toList, "user2".toList]).fields, LowerSnake Unicode.ascii f.name := by
      intro f hf
      rcases List.mem_pair.mp hf with rfl | rfl
      · exact lowerSnake_user2.1
      · exact lowerSnake_user2.2
    have hkeeps := h Unicode.ascii (snakeMessage ["user_2".toList, "user2".toList]) rfl hlower
    have hapart := hkeeps.apart _ List.mem_cons_self _ (List.mem_cons_of_mem _ List.mem_cons_self) (by decide)
    exact absurd hapart (by decide)

end Sql2pb
end ServiceKit
