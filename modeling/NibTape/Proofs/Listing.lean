import Mathlib.Data.List.Induction
import Mathlib.Data.String.Basic
import NibTape.PolicyCatalog

/-!
# What a catalog lists

A catalog is made by putting one item after the other into a list that is in order and has every
key once: first the modules of a directory by their file names, then the usable ones among them
by their labels. An item takes the place of an earlier one with its key. So the list holds, for
each key, the last item that was put there, and since the modules come in the order of their file
names, that is the module whose file name is the last.

Nothing but the usable modules matters for that: what is added to a directory or taken from it
does not change the catalog as long as it would not be listed itself. The exception is a package.
A package is never listed, but if it has the name of a module then that module cannot be loaded
any more, and so it is not listed either.
-/

namespace NibTape.PolicyCatalog

/-! ### Lists in order -/

section Ordered

variable {α : Type} {key : α → String} {a b : α} {l l' : List α}

/-- The items are in the order of their keys, and no two of them have the same. -/
def Ordered (key : α → String) (l : List α) : Prop := l.Pairwise fun a b => key a < key b

theorem Ordered.filter (h : Ordered key l) (p : α → Bool) : Ordered key (l.filter p) :=
  List.Pairwise.filter p h

/-- A list in order is determined by what is in it. -/
theorem Ordered.eq_of_mem_iff (h : Ordered key l) (h' : Ordered key l')
    (same : ∀ a, a ∈ l ↔ a ∈ l') : l = l' := by
  have distinct : ∀ {m : List α}, Ordered key m → m.Nodup := by
    intro m hm
    refine hm.imp ?_
    rintro a _ hlt rfl
    exact lt_irrefl _ hlt
  have perm : l.Perm l' := (List.perm_ext_iff_of_nodup (distinct h) (distinct h')).mpr same
  exact perm.eq_of_pairwise (fun _ _ _ _ hab hba => absurd hab (lt_asymm hba)) h h'

/-- The last item of a list in order is the one with the greatest key. -/
theorem Ordered.getLast?_eq_some_iff (h : Ordered key l) :
    l.getLast? = some b ↔ b ∈ l ∧ ∀ c ∈ l, key c ≤ key b := by
  induction l using List.reverseRecOn with
  | nil => simp
  | append_singleton l a ih =>
      obtain ⟨-, -, below⟩ := List.pairwise_append.mp h
      have hlt : ∀ c ∈ l, key c < key a := fun c hc => below c hc a (List.mem_singleton_self a)
      rw [List.getLast?_concat, Option.some.injEq]
      constructor
      · rintro rfl
        refine ⟨by simp, fun c hc => ?_⟩
        obtain hc | rfl := by simpa using hc
        · exact le_of_lt (hlt c hc)
        · exact le_refl _
      · rintro ⟨hb, greatest⟩
        obtain hb | rfl := by simpa using hb
        · exact absurd (hlt b hb) (not_lt.mpr (greatest a (by simp)))
        · rfl

/-- An item is put among the items with other keys. -/
theorem mem_putBy (h : Ordered key l) :
    b ∈ putBy key a l ↔ b = a ∨ b ∈ l ∧ key b ≠ key a := by
  induction l with
  | nil => simp [putBy]
  | cons c rest ih =>
      obtain ⟨above, hrest⟩ := List.pairwise_cons.mp h
      have apart : key a ≤ key c → b ∈ rest → key b ≠ key a := fun hle hb heq =>
        absurd (above b hb) (not_lt.mpr (heq ▸ hle))
      rw [putBy]
      split
      · rename_i heq
        have hb := apart (le_of_eq heq)
        simp only [List.mem_cons]
        grind
      · rename_i hne
        split
        · rename_i hlt
          have hb := apart (le_of_lt hlt)
          simp only [List.mem_cons]
          grind
        · simp only [List.mem_cons, ih hrest]
          grind

theorem ordered_putBy (h : Ordered key l) (a : α) : Ordered key (putBy key a l) := by
  induction l with
  | nil => exact List.pairwise_singleton _ a
  | cons c rest ih =>
      obtain ⟨above, hrest⟩ := List.pairwise_cons.mp h
      rw [putBy]
      split
      · rename_i heq
        exact List.pairwise_cons.mpr ⟨fun d hd => heq ▸ above d hd, hrest⟩
      · rename_i hne
        split
        · rename_i hlt
          refine List.pairwise_cons.mpr ⟨fun d hd => ?_, h⟩
          obtain rfl | hd := List.mem_cons.mp hd
          · exact hlt
          · exact lt_trans hlt (above d hd)
        · rename_i hge
          refine List.pairwise_cons.mpr ⟨fun d hd => ?_, ih hrest⟩
          obtain rfl | ⟨hd, -⟩ := (mem_putBy hrest).mp hd
          · exact lt_of_le_of_ne (not_lt.mp hge) (Ne.symm hne)
          · exact above d hd

def putAll (key : α → String) (items : List α) : List α :=
  items.foldl (fun placed a => putBy key a placed) []

theorem putAll_concat (items : List α) (a : α) :
    putAll key (items ++ [a]) = putBy key a (putAll key items) := by
  rw [putAll, List.foldl_append]
  rfl

theorem ordered_putAll (items : List α) : Ordered key (putAll key items) := by
  induction items using List.reverseRecOn with
  | nil => exact .nil
  | append_singleton items a ih =>
      rw [putAll_concat]
      exact ordered_putBy ih a

theorem putAll_eq_nil_iff {items : List α} : putAll key items = [] ↔ items = [] := by
  induction items using List.reverseRecOn with
  | nil => simp [putAll]
  | append_singleton items a _ =>
      have ha : a ∈ putAll key (items ++ [a]) := by
        rw [putAll_concat]
        exact (mem_putBy (ordered_putAll items)).mpr (.inl rfl)
      simp [List.ne_nil_of_mem ha]

/-- The last item with a key is kept. -/
theorem mem_putAll (items : List α) :
    b ∈ putAll key items ↔ (items.filter fun c => key c = key b).getLast? = some b := by
  induction items using List.reverseRecOn with
  | nil => simp [putAll]
  | append_singleton items a ih =>
      rw [putAll_concat, mem_putBy (ordered_putAll items), ih, List.filter_append]
      by_cases hkey : key a = key b
      · simp [hkey, eq_comm]
      · have hne : b ≠ a := fun h => hkey (h ▸ rfl)
        simp [hkey, hne, Ne.symm hkey]

/-- If no two items have the same key then all of them are kept. -/
theorem mem_putAll_of_nodup {items : List α} (distinct : (items.map key).Nodup) :
    b ∈ putAll key items ↔ b ∈ items := by
  induction items using List.reverseRecOn with
  | nil => simp [putAll]
  | append_singleton items a ih =>
      rw [List.map_append, List.nodup_append] at distinct
      obtain ⟨front, -, apart⟩ := distinct
      have hne : b ∈ items → key b ≠ key a := fun hb =>
        apart (key b) (List.mem_map_of_mem hb) (key a) (by simp)
      rw [putAll_concat, mem_putBy (ordered_putAll items), ih front, List.mem_append,
        List.mem_singleton]
      tauto

end Ordered

/-! ### Modules -/

namespace Candidate

/-- A name in a module that stands for what can be called, and was not given to something else. -/
def Offers (c : Candidate) (strategy : String) : Prop :=
  strategy ∈ c.callables ∧ strategy ∉ c.values

/-- A module that loads and offers the three strategies. -/
structure Usable (c : Candidate) : Prop where
  loads : c.loadError = none
  retreat : c.Offers "retreat"
  checkAccess : c.Offers "check_access"
  leaveLoop : c.Offers "leave_loop"

/-- The warning that a module gives: it does not load, or it lacks a strategy. -/
inductive Gives (c : Candidate) : Warning → Prop where
  | notLoaded {reason : String} (fails : c.loadError = some reason) :
      Gives c (.notLoaded c.name reason)
  | incomplete (loads : c.loadError = none) (lacks : ¬ c.Usable) : Gives c (.incomplete c.name)

/-- A module that is never listed, wherever it is. -/
def Idle (c : Candidate) : Prop :=
  c.isPackage = true ∨ c.name.toList.head? = some '_' ∨ ¬ c.Usable

variable {c : Candidate} {w : Warning}

theorem offers_iff {strategy : String} : c.offers strategy = true ↔ c.Offers strategy := by
  simp [offers, Offers]

theorem isComplete_iff (loads : c.loadError = none) : c.isComplete = true ↔ c.Usable := by
  simp only [isComplete, strategies, List.all_cons, List.all_nil, Bool.and_true, Bool.and_eq_true,
    offers_iff]
  exact ⟨fun ⟨retreat, checkAccess, leaveLoop⟩ => ⟨loads, retreat, checkAccess, leaveLoop⟩,
    fun usable => ⟨usable.retreat, usable.checkAccess, usable.leaveLoop⟩⟩

theorem isValid_iff : c.isValid = true ↔ c.Usable := by
  cases h : c.loadError with
  | some reason =>
      have unusable : ¬ c.Usable := fun usable => by simpa [h] using usable.loads
      simp [isValid, h, unusable]
  | none => simp [isValid, h, isComplete_iff h]

theorem warning?_eq_some_iff : c.warning? = some w ↔ c.Gives w := by
  rw [warning?]
  cases h : c.loadError with
  | some reason =>
      constructor
      · rintro ⟨⟩
        exact .notLoaded h
      · rintro (⟨fails⟩ | ⟨loads, -⟩)
        · rw [Option.some.inj (h.symm.trans fails)]
        · cases h.symm.trans loads
  | none =>
      have hcomplete := isComplete_iff h
      by_cases usable : c.Usable
      · rw [hcomplete.mpr usable]
        constructor
        · nofun
        · rintro (⟨fails⟩ | ⟨-, lacks⟩)
          · cases h.symm.trans fails
          · exact (lacks usable).elim
      · rw [Bool.eq_false_iff.mpr (mt hcomplete.mp usable)]
        constructor
        · rintro ⟨⟩
          exact .incomplete h usable
        · rintro (⟨fails⟩ | -)
          · cases h.symm.trans fails
          · rfl

instance : Decidable c.Usable := decidable_of_iff _ isValid_iff

instance : Decidable c.Idle := inferInstanceAs (Decidable (_ ∨ _ ∨ _))

end Candidate

/-! ### Directories -/

/-- A directory has no two files of one name, and its files are named like modules. -/
structure IsDirectory (directory : List Candidate) : Prop where
  distinct : (directory.map Candidate.fileName).Nodup
  named : ∀ c ∈ directory, c.isNamed = true

/-- A module that is looked at: it is no package, its name does not begin with an underscore, and
no package has that name. -/
structure Visited (directory : List Candidate) (c : Candidate) : Prop where
  mem : c ∈ directory
  isModule : c.isPackage = false
  shown : c.name.toList.head? ≠ some '_'
  apart : ∀ p ∈ directory, p.isPackage = true → p.name ≠ c.name

/-- The module that stands for a label: of the usable ones with that label the last, in the order
of the file names. -/
structure StandsFor (directory : List Candidate) (label : String) (c : Candidate) : Prop where
  visited : Visited directory c
  usable : c.Usable
  key : c.key = label
  last : ∀ d, Visited directory d → d.Usable → d.key = label → d.fileName ≤ c.fileName

/-- A package with the name of a module that would be listed without it. -/
def Hides (directory : List Candidate) (p : Candidate) : Prop :=
  p.isPackage = true ∧ ∃ c ∈ directory, ¬ c.Idle ∧ c.name = p.name

instance {directory : List Candidate} {p : Candidate} : Decidable (Hides directory p) :=
  inferInstanceAs (Decidable (_ ∧ ∃ c ∈ directory, _ ∧ _))

/-- The modules that only one of two directories has would not be listed, and hide none that
would. -/
structure DiffersIdly (directory other : List Candidate) : Prop where
  removed : ∀ c ∈ directory, c ∉ other → c.Idle ∧ ¬ Hides directory c
  added : ∀ c ∈ other, c ∉ directory → c.Idle ∧ ¬ Hides directory c

variable {directory other : List Candidate} {c : Candidate} {label module : String}
  {w : Warning}

theorem ordered_considered (directory : List Candidate) :
    Ordered Candidate.fileName (considered directory) := ordered_putAll _

theorem mem_considered (is : IsDirectory directory) :
    c ∈ considered directory ↔ Visited directory c := by
  have distinct : ∀ p, ((directory.filter p).map Candidate.fileName).Nodup := fun p =>
    is.distinct.sublist (List.filter_sublist.map Candidate.fileName)
  refine (mem_putAll_of_nodup (distinct _)).trans ?_
  simp only [List.mem_filter, Candidate.isConsidered, Bool.and_eq_true, Bool.not_eq_true',
    bne_iff_ne, List.contains_eq_mem, decide_eq_false_iff_not, List.mem_map, not_exists, not_and,
    and_imp]
  constructor
  · rintro ⟨hc, ⟨⟨isModule, -⟩, shown⟩, apart⟩
    exact ⟨hc, isModule, shown, apart⟩
  · intro visited
    exact ⟨visited.mem, ⟨⟨visited.isModule, is.named c visited.mem⟩, visited.shown⟩, visited.apart⟩

/-- The modules that are listed, if no later one has their label. -/
theorem mem_filter_isValid (is : IsDirectory directory) :
    c ∈ (considered directory).filter (·.isValid) ↔ Visited directory c ∧ c.Usable := by
  rw [List.mem_filter, mem_considered is, Candidate.isValid_iff]

def Candidate.entry (c : Candidate) : String × String := (c.key, qualified c.name)

theorem entries_eq (directory : List Candidate) :
    entries directory =
      putAll Prod.fst (((considered directory).filter (·.isValid)).map Candidate.entry) := by
  rw [putAll, List.foldl_map]
  rfl

theorem ordered_entries (directory : List Candidate) : Ordered Prod.fst (entries directory) := by
  rw [entries_eq]
  exact ordered_putAll _

/-- What is listed under a label is the module that stands for it. -/
theorem mem_entries (is : IsDirectory directory) :
    (label, module) ∈ entries directory ↔
      ∃ c, StandsFor directory label c ∧ qualified c.name = module := by
  have hlast : ∀ c, (((considered directory).filter (·.isValid)).filter
      fun c => c.key = label).getLast? = some c ↔ StandsFor directory label c := by
    intro c
    rw [(((ordered_considered directory).filter _).filter _).getLast?_eq_some_iff]
    simp only [List.mem_filter (p := fun c : Candidate => decide (c.key = label)),
      mem_filter_isValid is, decide_eq_true_eq, and_imp]
    constructor
    · rintro ⟨⟨⟨visited, usable⟩, key⟩, last⟩
      exact ⟨visited, usable, key, last⟩
    · rintro ⟨visited, usable, key, last⟩
      exact ⟨⟨⟨visited, usable⟩, key⟩, last⟩
  rw [entries_eq, mem_putAll, List.filter_map, List.getLast?_map, Option.map_eq_some_iff]
  refine exists_congr fun c => ?_
  constructor
  · rintro ⟨h, hentry⟩
    exact ⟨(hlast c).mp h, congrArg Prod.snd hentry⟩
  · rintro ⟨stands, hmodule⟩
    exact ⟨(hlast c).mpr stands, Prod.ext stands.key hmodule⟩

theorem entries_of_discover? {found : List (String × String)}
    (h : discover? directory = some found) : entries directory = found := by
  rw [discover?] at h
  split at h
  · cases h
  · exact Option.some.inj h

/-- Nothing is found if there is no usable module to visit, and only then. -/
theorem discover?_eq_none_iff (is : IsDirectory directory) :
    discover? directory = none ↔ ¬ ∃ c, Visited directory c ∧ c.Usable := by
  have hnil : discover? directory = none ↔ entries directory = [] := by
    rw [discover?]
    cases entries directory <;> simp
  rw [hnil, entries_eq, putAll_eq_nil_iff, List.map_eq_nil_iff, List.eq_nil_iff_forall_not_mem,
    not_exists]
  exact forall_congr' fun c => not_congr (mem_filter_isValid is)

/-! ### Warnings -/

def Warning.fileName : Warning → String
  | notLoaded name _ => name ++ ".py"
  | incomplete name => name ++ ".py"

theorem Candidate.Gives.fileName_eq (gives : c.Gives w) (isModule : c.isPackage = false) :
    w.fileName = c.fileName := by
  cases gives <;> simp [Warning.fileName, Candidate.fileName, isModule]

theorem mem_warnings (is : IsDirectory directory) :
    w ∈ warnings directory ↔ ∃ c, Visited directory c ∧ c.Gives w := by
  simp only [warnings, List.mem_filterMap, mem_considered is, Candidate.warning?_eq_some_iff]

theorem ordered_warnings (is : IsDirectory directory) :
    Ordered Warning.fileName (warnings directory) := by
  refine List.pairwise_filterMap.mpr ((ordered_considered directory).imp_of_mem ?_)
  intro c d hc hd hlt v hv w hw
  have visitedC := (mem_considered is).mp hc
  have visitedD := (mem_considered is).mp hd
  rw [(Candidate.warning?_eq_some_iff.mp hv).fileName_eq visitedC.isModule,
    (Candidate.warning?_eq_some_iff.mp hw).fileName_eq visitedD.isModule]
  exact hlt

/-! ### What does not matter -/

theorem Visited.not_idle (visited : Visited directory c) (usable : c.Usable) : ¬ c.Idle := by
  rintro (isPackage | hidden | unusable)
  · rw [visited.isModule] at isPackage
    cases isPackage
  · exact visited.shown hidden
  · exact unusable usable

namespace DiffersIdly

theorem mem_iff (differs : DiffersIdly directory other) (busy : ¬ c.Idle) :
    c ∈ other ↔ c ∈ directory := by
  constructor
  · intro hc
    by_contra hne
    exact busy (differs.added c hc hne).1
  · intro hc
    by_contra hne
    exact busy (differs.removed c hc hne).1

/-- A package that hides a module that would be listed is in both directories. -/
theorem package_mem_iff (differs : DiffersIdly directory other) {p : Candidate}
    (isPackage : p.isPackage = true) (busy : ¬ c.Idle) (mem : c ∈ directory)
    (hname : p.name = c.name) : p ∈ other ↔ p ∈ directory := by
  have hides : Hides directory p := ⟨isPackage, c, mem, busy, hname.symm⟩
  constructor
  · intro hp
    by_contra hne
    exact (differs.added p hp hne).2 hides
  · intro hp
    by_contra hne
    exact (differs.removed p hp hne).2 hides

/-- The usable modules that are visited are the same. -/
theorem visited_iff (differs : DiffersIdly directory other) (usable : c.Usable) :
    Visited other c ↔ Visited directory c := by
  constructor
  · intro visited
    have busy := visited.not_idle usable
    have mem := (differs.mem_iff busy).mp visited.mem
    refine ⟨mem, visited.isModule, visited.shown, fun p hp isPackage hname => ?_⟩
    have hother := (differs.package_mem_iff isPackage busy mem hname).mpr hp
    exact visited.apart p hother isPackage hname
  · intro visited
    have busy := visited.not_idle usable
    have mem := (differs.mem_iff busy).mpr visited.mem
    refine ⟨mem, visited.isModule, visited.shown, fun p hp isPackage hname => ?_⟩
    have hdirectory := (differs.package_mem_iff isPackage busy visited.mem hname).mp hp
    exact visited.apart p hdirectory isPackage hname

theorem discover?_eq (differs : DiffersIdly directory other) (is : IsDirectory directory)
    (isOther : IsDirectory other) : discover? other = discover? directory := by
  have listed : (considered other).filter (·.isValid) =
      (considered directory).filter (·.isValid) := by
    refine ((ordered_considered other).filter _).eq_of_mem_iff
      ((ordered_considered directory).filter _) fun c => ?_
    rw [mem_filter_isValid isOther, mem_filter_isValid is]
    exact and_congr_left differs.visited_iff
  rw [discover?, discover?, entries_eq, entries_eq, listed]

end DiffersIdly

/-- Nothing is found exactly if no module that is visited is usable. What is found otherwise has
its labels in order, and under each label the last of the usable modules with that label. The
warnings come in the order of the file names, and there is one for each module that is visited
and not usable, whether anything is found or not. What is found does not change with modules that
would not be listed, unless a package hides one that would. -/
theorem catalog_lists_usable_modules (is : IsDirectory directory) :
    (discover? directory = none ↔ ¬ ∃ c, Visited directory c ∧ c.Usable) ∧
    (∀ found, discover? directory = some found →
      (found.map Prod.fst).Pairwise (· < ·) ∧
      ∀ label module, (label, module) ∈ found ↔
        ∃ c, StandsFor directory label c ∧ qualified c.name = module) ∧
    ((warnings directory).Pairwise fun v w => v.fileName < w.fileName) ∧
    (∀ w, w ∈ warnings directory ↔ ∃ c, Visited directory c ∧ c.Gives w) ∧
    ∀ other, IsDirectory other → DiffersIdly directory other →
      discover? other = discover? directory := by
  refine ⟨discover?_eq_none_iff is, ?_, ordered_warnings is, fun w => mem_warnings is, ?_⟩
  · intro found h
    obtain rfl := entries_of_discover? h
    exact ⟨List.pairwise_map.mpr (ordered_entries directory), fun label module => mem_entries is⟩
  · intro other isOther differs
    exact differs.discover?_eq is isOther

/-- Of two modules with one label the later is found, and the labels come in their own order. The
rest of the directory is a module that does not load, one in which a strategy cannot be called, a
package and an underscored module. It gives two warnings and can be left out. -/
theorem catalog_lists_later_of_two_modules :
    let a : Candidate := { name := "a", label := some "k", callables := strategies }
    let b : Candidate := { name := "b", label := some "k", callables := strategies }
    let z : Candidate := { name := "z", label := some "c", callables := strategies }
    let bad : Candidate := { name := "bad", loadError := some "boom", callables := strategies }
    let half : Candidate :=
      { name := "half", callables := strategies, values := ["leave_loop"] }
    let pack : Candidate := { name := "pack", isPackage := true, callables := strategies }
    let under : Candidate := { name := "_a", label := some "k", callables := strategies }
    let directory := [z, half, b, pack, a, under, bad]
    let other := [a, b, z]
    (IsDirectory directory ∧ IsDirectory other ∧ DiffersIdly directory other) ∧
    discover? directory = some [("c", "nibvm.policies.z"), ("k", "nibvm.policies.b")] ∧
    (∃ c, StandsFor directory "k" c ∧ qualified c.name = "nibvm.policies.b") ∧
    warnings directory = [.notLoaded "bad" "boom", .incomplete "half"] ∧
    (∃ c, Visited directory c ∧ c.Gives (.incomplete "half")) ∧
    discover? other = discover? directory := by
  intro a b z bad half pack under directory other
  have is : IsDirectory directory := ⟨by decide, by decide⟩
  have isOther : IsDirectory other := ⟨by decide, by decide⟩
  have differs : DiffersIdly directory other := ⟨by decide, by decide⟩
  have hfound : discover? directory =
      some [("c", "nibvm.policies.z"), ("k", "nibvm.policies.b")] := by decide
  have hwarnings : warnings directory = [.notLoaded "bad" "boom", .incomplete "half"] := by decide
  obtain ⟨-, listed, -, warned, unchanged⟩ := catalog_lists_usable_modules is
  refine ⟨⟨is, isOther, differs⟩, hfound, ?_, hwarnings, ?_, unchanged other isOther differs⟩
  · exact ((listed _ hfound).2 "k" "nibvm.policies.b").mp (by simp)
  · exact (warned (.incomplete "half")).mp (by rw [hwarnings]; simp)

/-- A package next to a module of the same name hides it, so that it is not found any more though
it is usable. -/
theorem package_hides_module_of_its_name :
    let a : Candidate := { name := "a", callables := strategies }
    let p : Candidate := { name := "a", isPackage := true }
    IsDirectory [a, p] ∧ a.isPackage = false ∧ a.name.toList.head? ≠ some '_' ∧ a.Usable ∧
    discover? [a] = some [("a", "nibvm.policies.a")] ∧ discover? [a, p] = none := by
  intro a p
  exact ⟨⟨by decide, by decide⟩, rfl, by decide, by decide, by decide, by decide⟩

end NibTape.PolicyCatalog
