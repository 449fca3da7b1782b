import ServiceKit.Goprotoc.Names
import Mathlib.Data.List.Perm.Basic

/-!
# `Goprotoc.Correctness.DistinctNames` — no two names of a message clash

Whatever the fields and oneofs of a message are called, their Go names are found, all of them are different and none
is the name of a generated method (`names_distinct`). That the getter of a field has the name of a later one is not
looked at. A wrapper type is computed for the first field of a oneof and for no other (`choice_types_iff`).
-/

namespace ServiceKit
namespace Goprotoc

open Lib

variable {md : MessageType} {n n' : GoNames} {fld : FieldDescriptor} {done : List FieldDescriptor} {used : List Text}
  {name ood : Text}

/-! ## Candidates -/

theorem iterate_underscored (k : Nat) (name : Text) : underscored^[k] name = name ++ List.replicate k '_' := by
  induction k with
  | zero => simp
  | succ k ih => rw [Function.iterate_succ_apply', ih, underscored, List.append_assoc, List.replicate_succ']

theorem underscored_injective (name : Text) : Function.Injective fun k => underscored^[k] name := by
  intro i j heq
  have hlength := congrArg List.length heq
  simp only [iterate_underscored, List.length_append, List.length_replicate] at hlength
  omega

/-- A candidate: the camel-cased name, with underscores. -/
def Candidate (name candidate : Text) : Prop := ∃ k, candidate = name ++ List.replicate k '_'

theorem candidate_of_firstUntaken {taken : Text → Bool} {fuel : Nat} {candidate : Text}
    (h : firstUntaken taken underscored fuel name = some candidate) :
    taken candidate = false ∧ Candidate name candidate := by
  obtain ⟨hnot, k, rfl⟩ := firstUntaken_eq_some h
  exact ⟨hnot, k, iterate_underscored k name⟩

theorem exists_untaken (used : List Text) (name : Text) :
    ∃ candidate, firstUntaken used.contains underscored (used.length + 1) name = some candidate :=
  exists_firstUntaken (underscored_injective name) used.toFinset (fun y hy => by simpa using hy)
    (Nat.lt_succ_of_le (List.toFinset_card_le used))

theorem exists_computeField (used : List Text) (fld : FieldDescriptor) : ∃ name, computeField used fld = some name := by
  -- a name in use takes itself, and the name of which it is the getter
  refine exists_firstUntaken (underscored_injective _) (used.toFinset ∪ used.toFinset.image (List.drop 3)) ?_ ?_
  · intro y hy
    rw [Bool.or_eq_true, List.contains_iff_mem, List.contains_iff_mem] at hy
    rcases hy with hy | hy
    · exact Finset.mem_union_left _ (List.mem_toFinset.mpr hy)
    · exact Finset.mem_union_right _ (Finset.mem_image.mpr ⟨getter y, List.mem_toFinset.mpr hy, rfl⟩)
  · have hle := Finset.card_union_le used.toFinset (used.toFinset.image (List.drop 3))
    have himage := Finset.card_image_le (s := used.toFinset) (f := List.drop 3)
    have hcard := List.toFinset_card_le used
    omega

theorem computeField_spec (h : computeField used fld = some name) :
    name ∉ used ∧ getter name ∉ used ∧ Candidate (CamelCase fld.name) name := by
  obtain ⟨hnot, hcandidate⟩ := candidate_of_firstUntaken h
  rw [Bool.or_eq_false_iff, ← Bool.not_eq_true, ← Bool.not_eq_true, List.contains_iff_mem, List.contains_iff_mem] at hnot
  exact ⟨hnot.1, hnot.2, hcandidate⟩

theorem computeOneOf_spec (h : computeOneOf used ood = some name) : name ∉ used ∧ Candidate (CamelCase ood) name := by
  obtain ⟨hnot, hcandidate⟩ := candidate_of_firstUntaken h
  rw [← Bool.not_eq_true, List.contains_iff_mem] at hnot
  exact ⟨hnot, hcandidate⟩

theorem computeChoice_spec {choice : Text} (h : computeChoice md name = some choice) :
    choice ∉ md.nestedNames ∧ Candidate (md.goName ++ '_' :: name) choice := by
  obtain ⟨hnot, hcandidate⟩ := candidate_of_firstUntaken h
  rw [← Bool.not_eq_true, List.contains_iff_mem] at hnot
  exact ⟨hnot, hcandidate⟩

/-! ## One field -/

/-- The first field of its oneof. -/
def Opens (done : List FieldDescriptor) (fld : FieldDescriptor) (ood : Text) : Prop :=
  fld.oneOf = some ood ∧ ∀ g ∈ done, g.oneOf ≠ some ood

/-- What one round does: a field gets a name that is free, and so does its oneof if the field is the first of it. -/
theorem computeNames_cases (md : MessageType) (n : GoNames) (fld : FieldDescriptor) :
    ∃ name, name ∉ n.usedNames ∧ getter name ∉ n.usedNames ∧ Candidate (CamelCase fld.name) name ∧
      ((computeNames md n fld = some { n with
            usedNames := n.usedNames ++ [name]
            fieldNames := n.fieldNames ++ [(fld.name, name)] } ∧
          ∀ ood, fld.oneOf = some ood → ood ∈ n.computedOneOfs) ∨
        ∃ ood oodName choice, fld.oneOf = some ood ∧ ood ∉ n.computedOneOfs ∧ oodName ∉ n.usedNames ++ [name] ∧
          Candidate (CamelCase ood) oodName ∧ choice ∉ md.nestedNames ∧ Candidate (md.goName ++ '_' :: name) choice ∧
          computeNames md n fld = some
            { usedNames := n.usedNames ++ [name] ++ [oodName]
              computedOneOfs := n.computedOneOfs ++ [ood]
              fieldNames := n.fieldNames ++ [(fld.name, name)]
              oneOfNames := n.oneOfNames ++ [(ood, oodName)]
              choiceTypes := n.choiceTypes ++ [(fld.name, choice)] }) := by
  obtain ⟨name, hname⟩ := exists_computeField n.usedNames fld
  obtain ⟨hfree, hgetter, hcandidate⟩ := computeField_spec hname
  refine ⟨name, hfree, hgetter, hcandidate, ?_⟩
  rw [computeNames, hname, Option.bind_some]
  cases hood : fld.oneOf with
  | none => exact .inl ⟨rfl, fun ood h => by cases h⟩
  | some ood =>
      simp only
      by_cases hdone : n.computedOneOfs.contains ood
      · rw [if_pos hdone]
        refine .inl ⟨rfl, fun ood' h => ?_⟩
        obtain rfl := Option.some.inj h
        exact List.contains_iff_mem.mp hdone
      · obtain ⟨oodName, hoodName⟩ : ∃ oodName, computeOneOf (n.usedNames ++ [name]) ood = some oodName :=
          exists_untaken _ _
        obtain ⟨choice, hchoice⟩ : ∃ choice, computeChoice md name = some choice := exists_untaken _ _
        obtain ⟨hfree', hcandidate'⟩ := computeOneOf_spec hoodName
        obtain ⟨hnot, hcandidate''⟩ := computeChoice_spec hchoice
        rw [if_neg hdone, hoodName, Option.bind_some, hchoice, Option.map_some]
        exact .inr ⟨ood, oodName, choice, rfl, mt List.contains_iff_mem.mpr hdone, hfree', hcandidate', hnot, hcandidate'',
          rfl⟩

/-! ## All fields -/

/-- What holds of the names when the fields `done` have theirs. -/
structure Named (md : MessageType) (done : List FieldDescriptor) (n : GoNames) : Prop where
  perm : n.usedNames.Perm (reservedMethodNames ++ (n.fieldNames.map Prod.snd ++ n.oneOfNames.map Prod.snd))
  nodup : n.usedNames.Nodup
  fields : n.fieldNames.map Prod.fst = done.map FieldDescriptor.name
  getters : (n.fieldNames.map Prod.snd).Pairwise fun a b => a ≠ getter b
  candidates : ∀ p ∈ n.fieldNames ++ n.oneOfNames, Candidate (CamelCase p.1) p.2
  oneOfs : ∀ ood, ood ∈ n.computedOneOfs ↔ ∃ f ∈ done, f.oneOf = some ood
  oneOfKeys : n.oneOfNames.map Prod.fst = n.computedOneOfs
  oneOfsOnce : n.computedOneOfs.Nodup
  choices : ∀ name, name ∈ n.choiceTypes.map Prod.fst ↔
    ∃ pre f post ood, done = pre ++ f :: post ∧ Opens pre f ood ∧ f.name = name
  choiceTypes : ∀ p ∈ n.choiceTypes, p.2 ∉ md.nestedNames

theorem Named.init (md : MessageType) : Named md [] ⟨reservedMethodNames, [], [], [], []⟩ where
  perm := by simp
  nodup := by decide
  fields := rfl
  getters := List.Pairwise.nil
  candidates := by simp
  oneOfs := by simp
  oneOfKeys := rfl
  oneOfsOnce := List.nodup_nil
  choices := by simp
  choiceTypes := by simp

/-- The first fields of their oneofs, with one more field. -/
theorem opens_snoc {name : Text} :
    (∃ pre f post ood, done ++ [fld] = pre ++ f :: post ∧ Opens pre f ood ∧ f.name = name) ↔
      (∃ pre f post ood, done = pre ++ f :: post ∧ Opens pre f ood ∧ f.name = name) ∨
        ((∃ ood, Opens done fld ood) ∧ fld.name = name) := by
  constructor
  · rintro ⟨pre, f, post, ood, heq, hopens, hname⟩
    rcases List.eq_nil_or_concat post with rfl | ⟨post, g, rfl⟩
    · obtain ⟨rfl, hlast⟩ := List.append_inj' heq rfl
      obtain rfl := List.head_eq_of_cons_eq hlast
      exact .inr ⟨⟨ood, hopens⟩, hname⟩
    · have heq' : done ++ [fld] = (pre ++ f :: post) ++ [g] := by simpa using heq
      exact .inl ⟨pre, f, post, ood, (List.append_inj' heq' rfl).1, hopens, hname⟩
  · rintro (⟨pre, f, post, ood, rfl, hopens, hname⟩ | ⟨⟨ood, hopens⟩, hname⟩)
    · exact ⟨pre, f, post ++ [fld], ood, by simp, hopens, hname⟩
    · exact ⟨done, fld, [], ood, rfl, hopens, hname⟩

theorem mem_of_perm_field (h : Named md done n) {name : Text} (hname : name ∈ n.fieldNames.map Prod.snd) :
    name ∈ n.usedNames :=
  h.perm.mem_iff.mpr (List.mem_append_right _ (List.mem_append_left _ hname))

/-- A name for one more field. -/
theorem Named.pairwise_snoc (h : Named md done n) (hgetter : getter name ∉ n.usedNames) :
    ((n.fieldNames ++ [(fld.name, name)]).map Prod.snd).Pairwise fun a b => a ≠ getter b := by
  rw [List.map_append, List.pairwise_append]
  refine ⟨h.getters, List.pairwise_singleton _ _, fun a ha b hb => ?_⟩
  obtain rfl := List.mem_singleton.mp hb
  rintro rfl
  exact hgetter (mem_of_perm_field h ha)

theorem nodup_snoc {names : List Text} (h : names.Nodup) (hname : name ∉ names) : (names ++ [name]).Nodup :=
  List.nodup_append.mpr ⟨h, List.nodup_singleton _, fun a ha b hb => by
    obtain rfl := List.mem_singleton.mp hb
    exact fun heq => hname (heq ▸ ha)⟩

/-- **One round keeps it.** -/
theorem Named.step (h : Named md done n) (fld : FieldDescriptor) :
    ∃ n', computeNames md n fld = some n' ∧ Named md (done ++ [fld]) n' := by
  obtain ⟨name, hfree, hgetter, hcandidate, ⟨hcompute, hknown⟩ |
    ⟨ood, oodName, choice, hood, hnew, hfree', hcandidate', hnot, -, hcompute⟩⟩ := computeNames_cases md n fld
  · refine ⟨_, hcompute, ?_, nodup_snoc h.nodup hfree, ?_, h.pairwise_snoc hgetter, ?_, ?_, h.oneOfKeys,
      h.oneOfsOnce, ?_, h.choiceTypes⟩
    · refine (h.perm.append_right [name]).trans ?_
      simp only [List.map_append, List.map_cons, List.map_nil, List.append_assoc]
      exact ((List.perm_append_comm).append_left _).append_left _
    · simp [h.fields]
    · intro p hp
      rcases List.mem_append.mp hp with hp | hp
      · rcases List.mem_append.mp hp with hp | hp
        · exact h.candidates p (List.mem_append_left _ hp)
        · obtain rfl := List.mem_singleton.mp hp
          exact hcandidate
      · exact h.candidates p (List.mem_append_right _ hp)
    · intro ood
      rw [h.oneOfs ood]
      constructor
      · rintro ⟨f, hf, hood⟩
        exact ⟨f, List.mem_append_left _ hf, hood⟩
      · rintro ⟨f, hf, hood⟩
        rcases List.mem_append.mp hf with hf | hf
        · exact ⟨f, hf, hood⟩
        · obtain rfl := List.mem_singleton.mp hf
          exact (h.oneOfs ood).mp (hknown ood hood)
    · intro name'
      rw [opens_snoc, ← h.choices name']
      refine ⟨.inl, fun hor => hor.resolve_right ?_⟩
      rintro ⟨⟨ood, hood, hfirst⟩, -⟩
      obtain ⟨g, hg, hgood⟩ := (h.oneOfs ood).mp (hknown ood hood)
      exact hfirst g hg hgood
  · refine ⟨_, hcompute, ?_, nodup_snoc (nodup_snoc h.nodup hfree) hfree', ?_, h.pairwise_snoc hgetter, ?_, ?_, ?_,
      nodup_snoc h.oneOfsOnce hnew, ?_, ?_⟩
    · refine ((h.perm.append_right [name]).append_right [oodName]).trans ?_
      simp only [List.map_append, List.map_cons, List.map_nil, List.append_assoc]
      refine List.Perm.append_left _ (List.Perm.append_left _ ?_)
      rw [← List.append_assoc, ← List.append_assoc [name]]
      exact List.perm_append_comm.append_right _
    · simp [h.fields]
    · intro p hp
      simp only [List.mem_append, List.mem_singleton] at hp
      rcases hp with (hp | rfl) | hp | rfl
      · exact h.candidates p (List.mem_append_left _ hp)
      · exact hcandidate
      · exact h.candidates p (List.mem_append_right _ hp)
      · exact hcandidate'
    · intro ood'
      rw [List.mem_append, h.oneOfs ood', List.mem_singleton]
      constructor
      · rintro (⟨f, hf, hood'⟩ | rfl)
        · exact ⟨f, List.mem_append_left _ hf, hood'⟩
        · exact ⟨fld, List.mem_append_right _ List.mem_cons_self, hood⟩
      · rintro ⟨f, hf, hood'⟩
        rcases List.mem_append.mp hf with hf | hf
        · exact .inl ⟨f, hf, hood'⟩
        · obtain rfl := List.mem_singleton.mp hf
          exact .inr (Option.some.inj (hood'.symm.trans hood))
    · rw [List.map_append, h.oneOfKeys]
      rfl
    · intro name'
      rw [opens_snoc, ← h.choices name', List.map_append, List.mem_append]
      refine or_congr_right ?_
      simp only [List.map_cons, List.map_nil, List.mem_singleton]
      refine ⟨fun heq => ⟨⟨ood, hood, fun g hg hgood => hnew ((h.oneOfs ood).mpr ⟨g, hg, hgood⟩)⟩, heq.symm⟩,
        fun hand => hand.2.symm⟩
    · intro p hp
      rcases List.mem_append.mp hp with hp | hp
      · exact h.choiceTypes p hp
      · obtain rfl := List.mem_singleton.mp hp
        exact hnot

theorem computeMessage_named (md : MessageType) : ∃ n, computeMessage md = some n ∧ Named md md.fields n := by
  have hrun : ∀ fields done n, Named md done n →
      ∃ n', fields.foldlM (computeNames md) n = some n' ∧ Named md (done ++ fields) n' := by
    intro fields
    induction fields with
    | nil => exact fun done n h => ⟨n, rfl, (List.append_nil done).symm ▸ h⟩
    | cons fld fields ih =>
        intro done n h
        obtain ⟨n', hstep, hnamed⟩ := h.step fld
        obtain ⟨n'', hfold, hnamed'⟩ := ih (done ++ [fld]) n' hnamed
        refine ⟨n'', ?_, ?_⟩
        · rw [List.foldlM_cons, hstep]
          exact hfold
        · rw [List.append_assoc] at hnamed'
          exact hnamed'
  obtain ⟨n, hcompute, hnamed⟩ := hrun md.fields [] _ (Named.init md)
  exact ⟨n, hcompute, hnamed⟩

/-- **The names of a message.** They are found for all fields, and once for each oneof of a field, each the camel-cased
    name with underscores; they are different from each other and from the generated methods, and no getter has the name
    of an earlier field. -/
theorem names_distinct (md : MessageType) :
    ∃ n, computeMessage md = some n ∧ n.fieldNames.map Prod.fst = md.fields.map FieldDescriptor.name ∧
      (n.oneOfNames.map Prod.fst).Nodup ∧
      (∀ ood, ood ∈ n.oneOfNames.map Prod.fst ↔ ∃ f ∈ md.fields, f.oneOf = some ood) ∧
      (∀ p ∈ n.fieldNames ++ n.oneOfNames, Candidate (CamelCase p.1) p.2) ∧
      (reservedMethodNames ++ (n.fieldNames.map Prod.snd ++ n.oneOfNames.map Prod.snd)).Nodup ∧
      (n.fieldNames.map Prod.snd).Pairwise fun a b => a ≠ getter b := by
  obtain ⟨n, hcompute, hnamed⟩ := computeMessage_named md
  refine ⟨n, hcompute, hnamed.fields, ?_, ?_, hnamed.candidates, hnamed.perm.nodup_iff.mp hnamed.nodup, hnamed.getters⟩
  · rw [hnamed.oneOfKeys]
    exact hnamed.oneOfsOnce
  · rw [hnamed.oneOfKeys]
    exact hnamed.oneOfs

/-- The other way round they clash: the getter of the first field is the second. -/
example :
    (computeMessage ⟨[['M']], [⟨"foo".toList, none⟩, ⟨"get_foo".toList, none⟩], []⟩).map
      (fun n => n.fieldNames.map Prod.snd) = some ["Foo".toList, getter "Foo".toList] := by decide

/-- **Wrapper types.** Of the fields of a oneof the first has one, with a name that no nested type has, and no other has
    one. -/
theorem choice_types_iff (md : MessageType) :
    ∃ n, computeMessage md = some n ∧
      (∀ name, name ∈ n.choiceTypes.map Prod.fst ↔
        ∃ pre f post ood, md.fields = pre ++ f :: post ∧ Opens pre f ood ∧ f.name = name) ∧
      ∀ p ∈ n.choiceTypes, p.2 ∉ md.nestedNames := by
  obtain ⟨n, hcompute, hnamed⟩ := computeMessage_named md
  exact ⟨n, hcompute, hnamed.choices, hnamed.choiceTypes⟩

end Goprotoc
end ServiceKit
