import Mathlib.Data.List.Induction
import Mathlib.Data.List.Nodup
import CodeIndex.Language.Registry
import CodeIndex.Proofs.Dict

/-!
# What a registry promises

A registry changes its indexes in place when a language is added, and builds them anew when one is replaced or
removed. Either way they say one thing about the list of languages (`Indexed`): a key leads to the language that
it names, else to the earliest one that has it as an alias, and an extension to the earliest one that lists it.
The list is in the order in which the names came to stay (`EnteredAt`).
-/

namespace CodeIndex

/-! ## Indexes of keys -/

namespace KeyIndex

theorem lookup_set (key k : String) (place : Nat) (index : KeyIndex) :
    (set key place index).lookup k = if k = key then some place else index.lookup k := by
  induction index with
  | nil => rw [set, Dict.lookup_cons_eq]
  | cons entry rest ih =>
    rw [set]
    split
    · next heq =>
      rw [Dict.lookup_cons_eq, Dict.lookup_cons_eq, heq]
      split <;> rfl
    · next hne =>
      rw [Dict.lookup_cons_eq, Dict.lookup_cons_eq, ih]
      by_cases hk : k = entry.1
      · simp [hk, hne]
      · simp [hk]

theorem lookup_setNew (key k : String) (place : Nat) (index : KeyIndex) :
    (setNew key place index).lookup k = (index.lookup k).or (if k = key then some place else none) := by
  unfold setNew
  split
  · next hsome =>
    by_cases hk : k = key
    · obtain ⟨other, hother⟩ := Option.isSome_iff_exists.mp hsome
      simp [hk, hother]
    · simp [hk]
  · rw [List.lookup_append, Dict.lookup_cons_eq]
    rfl

theorem lookup_setAllNew (keys : List String) (place : Nat) (index : KeyIndex) (k : String) :
    (setAllNew keys place index).lookup k = (index.lookup k).or (if keys.contains k then some place else none) := by
  unfold setAllNew
  induction keys generalizing index with
  | nil => simp
  | cons key rest ih =>
    rw [List.foldl_cons, ih, lookup_setNew, Option.or_assoc]
    by_cases hk : k = key <;> simp [hk]

/-- No key occurs twice. -/
def Distinct (index : KeyIndex) : Prop := (index.map (·.1)).Nodup

variable {index : KeyIndex}

theorem mem_keys_set {key k : String} {place : Nat} (h : k ∈ (set key place index).map (·.1)) :
    k = key ∨ k ∈ index.map (·.1) := by
  induction index with
  | nil => simpa [set] using h
  | cons entry rest ih =>
    rw [set] at h
    split at h
    · exact .inr h
    · rcases List.mem_cons.mp h with rfl | h
      · exact .inr List.mem_cons_self
      · exact (ih h).imp_right (List.mem_cons_of_mem _)

theorem Distinct.set (h : index.Distinct) (key : String) (place : Nat) : (set key place index).Distinct := by
  induction index with
  | nil => exact List.nodup_singleton key
  | cons entry rest ih =>
    obtain ⟨hfirst, hrest⟩ := List.nodup_cons.mp h
    rw [KeyIndex.set]
    split
    · exact h
    · next hne =>
      refine List.nodup_cons.mpr ⟨fun hmem => ?_, ih hrest⟩
      rcases mem_keys_set hmem with heq | hmem
      · exact hne heq
      · exact hfirst hmem

theorem Distinct.setNew (h : index.Distinct) (key : String) (place : Nat) : (setNew key place index).Distinct := by
  unfold KeyIndex.setNew
  split
  · exact h
  · next hnone =>
    unfold Distinct
    rw [List.map_append, List.nodup_append]
    refine ⟨h, List.nodup_singleton _, fun k hk k' hk' heq => hnone ?_⟩
    obtain rfl := heq.trans (List.mem_singleton.mp hk')
    obtain ⟨entry, hentry, rfl⟩ := List.mem_map.mp hk
    rw [Dict.lookup_of_mem h hentry]
    rfl

theorem Distinct.setAllNew (h : index.Distinct) (keys : List String) (place : Nat) :
    (setAllNew keys place index).Distinct := by
  unfold KeyIndex.setAllNew
  induction keys generalizing index with
  | nil => exact h
  | cons key rest ih => exact ih (h.setNew key place)

/-! ## Indexes over a list of languages -/

/-- Places in the rest of a list, counted from its front. -/
theorem map_place_succ (place : Option Nat) (start : Nat) :
    place.map (· + (start + 1)) = (place.map (· + 1)).map (· + start) := by
  rw [Option.map_map]
  congr 1
  funext i
  simp only [Function.comp_apply]
  omega

/-- What the names add to an index, where no name occurs twice. -/
theorem lookup_foldl_set {languages : List Language} (h : (languages.map (·.name)).Nodup) (start : Nat)
    (index : KeyIndex) (k : String) :
    ((languages.zipIdx start).foldl (fun index placed => set placed.1.name placed.2 index) index).lookup k =
      ((languages.findIdx? (·.name = k)).map (· + start)).or (index.lookup k) := by
  induction languages generalizing start index with
  | nil => rfl
  | cons l rest ih =>
    obtain ⟨hfirst, hrest⟩ := List.nodup_cons.mp h
    rw [List.zipIdx_cons, List.foldl_cons, ih hrest, lookup_set, List.findIdx?_cons, map_place_succ]
    by_cases hk : l.name = k
    · have hnone : rest.findIdx? (·.name = k) = none := by
        rw [List.findIdx?_eq_none_iff]
        intro m hm
        simpa using fun heq : m.name = k => hfirst (List.mem_map.mpr ⟨m, hm, heq.trans hk.symm⟩)
      simp [hk, hnone]
    · simp [hk, Ne.symm hk]

/-- What keys that are set only where there is none add to an index: the earliest language counts. -/
theorem lookup_foldl_setAllNew (keys : Language → List String) (languages : List Language) (start : Nat)
    (index : KeyIndex) (k : String) :
    ((languages.zipIdx start).foldl (fun index placed => setAllNew (keys placed.1) placed.2 index) index).lookup k =
      (index.lookup k).or ((languages.findIdx? fun l => (keys l).contains k).map (· + start)) := by
  induction languages generalizing start index with
  | nil => simp
  | cons l rest ih =>
    rw [List.zipIdx_cons, List.foldl_cons, ih, lookup_setAllNew, List.findIdx?_cons, Option.or_assoc, map_place_succ]
    cases (keys l).contains k <;> simp

theorem distinct_foldl {α : Type} {step : KeyIndex → α → KeyIndex}
    (hstep : ∀ index : KeyIndex, index.Distinct → ∀ a, (step index a).Distinct) (as : List α) {index : KeyIndex}
    (h : index.Distinct) : (as.foldl step index).Distinct := by
  induction as generalizing index with
  | nil => exact h
  | cons a rest ih => exact ih (hstep index h a)

end KeyIndex

namespace Registry

variable {r : Registry} {languages : List Language} {l : Language}

/-- Where a name or alias leads: to the language of the name, else to the earliest one with the alias. -/
def placeOfName (languages : List Language) (k : String) : Option Nat :=
  (languages.findIdx? (·.name = k)).or (languages.findIdx? (·.aliases.contains k))

/-- Where an extension leads: to the earliest language that lists it. -/
def placeOfExtension (languages : List Language) (ext : String) : Option Nat :=
  languages.findIdx? (·.extensions.contains ext)

/-- Each name occurs once, and the indexes lead where the list of languages says. -/
structure Indexed (r : Registry) : Prop where
  names_nodup : (r.languages.map (·.name)).Nodup
  lookup_names : ∀ k, r.names.lookup k = placeOfName r.languages k
  lookup_extensions : ∀ ext, r.extensions.lookup ext = placeOfExtension r.languages ext
  distinct_names : r.names.Distinct
  distinct_extensions : r.extensions.Distinct

theorem indexed_empty : empty.Indexed :=
  ⟨.nil, fun _ => rfl, fun _ => rfl, .nil, .nil⟩

/-- Indexes that are built anew lead where they should. -/
theorem indexed_reindex (h : (languages.map (·.name)).Nodup) : (reindex languages).Indexed where
  names_nodup := h
  lookup_names k := by
    have hnames := KeyIndex.lookup_foldl_set h 0 [] k
    rw [List.lookup_nil, Option.or_none] at hnames
    refine (KeyIndex.lookup_foldl_setAllNew Language.aliases languages 0 _ k).trans ?_
    refine (congrArg (Option.or · _) hnames).trans ?_
    simp [placeOfName, reindex]
  lookup_extensions ext := by
    refine (KeyIndex.lookup_foldl_setAllNew Language.extensions languages 0 [] ext).trans ?_
    simp [placeOfExtension, reindex]
  distinct_names :=
    KeyIndex.distinct_foldl (fun _ h _ => h.setAllNew _ _) _ (KeyIndex.distinct_foldl (fun _ h _ => h.set _ _) _ .nil)
  distinct_extensions := KeyIndex.distinct_foldl (fun _ h _ => h.setAllNew _ _) _ .nil

/-- A language whose name is new goes to the end, and the indexes are set in place. -/
theorem Indexed.add (h : r.Indexed) (hnew : l.name ∉ r.languages.map (·.name)) :
    Indexed {
      languages := r.languages ++ [l]
      names := KeyIndex.setAllNew l.aliases r.languages.length (KeyIndex.set l.name r.languages.length r.names)
      extensions := KeyIndex.setAllNew l.extensions r.languages.length r.extensions } where
  names_nodup := by
    rw [List.map_append, List.nodup_append]
    refine ⟨h.names_nodup, List.nodup_singleton _, fun a ha b hb heq => hnew ?_⟩
    obtain rfl : b = l.name := List.mem_singleton.mp hb
    rwa [← heq]
  lookup_names k := by
    have hnone : r.languages.findIdx? (·.name = l.name) = none := by
      rw [List.findIdx?_eq_none_iff]
      intro m hm
      simpa using fun heq : m.name = l.name => hnew (List.mem_map.mpr ⟨m, hm, heq⟩)
    rw [KeyIndex.lookup_setAllNew, KeyIndex.lookup_set, h.lookup_names, placeOfName, placeOfName, List.findIdx?_append,
      List.findIdx?_append, List.findIdx?_singleton, List.findIdx?_singleton]
    -- the new name goes before every alias; any other key leads where it did, or to the new language last
    by_cases hk : k = l.name
    · subst hk
      simp [hnone]
    · cases l.aliases.contains k <;> simp [hk, Ne.symm hk]
  lookup_extensions ext := by
    rw [KeyIndex.lookup_setAllNew, h.lookup_extensions, placeOfExtension, placeOfExtension, List.findIdx?_append,
      List.findIdx?_singleton]
    cases l.extensions.contains ext <;> simp
  distinct_names := (h.distinct_names.set _ _).setAllNew _ _
  distinct_extensions := h.distinct_extensions.setAllNew _ _

/-! ## Changes -/

/-- A call that changes a registry. -/
inductive Change where
  | register (language : Language) (extensions aliases : List String)
  | unregister (name : String)

/-- The registry after a call; one that finds nothing to remove leaves it as it is. -/
def change (r : Registry) : Change → Registry
  | .register language extensions aliases => r.register language extensions aliases
  | .unregister name => (r.unregister? name).getD r

/-- The registry after calls one after another. -/
def after (changes : List Change) : Registry := changes.foldl change empty

/-- The canonical names in the order of the languages. -/
def order (r : Registry) : List String := r.languages.map (·.name)

/-- What a call does: it puts a language in the place of the one with its name, adds one with a new name at the
end, removes one, or finds nothing to remove. -/
inductive Changed (r : Registry) : Change → Registry → Prop where
  | replaced {language l : Language} {extensions aliases : List String} {i : Nat} (hname : l.name = Text.lower language.name)
      (hold : r.order[i]? = some l.name) :
      Changed r (.register language extensions aliases) (reindex (r.languages.set i l))
  | added {language l : Language} {extensions aliases : List String} (hname : l.name = Text.lower language.name)
      (hnew : l.name ∉ r.order) :
      Changed r (.register language extensions aliases) {
        languages := r.languages ++ [l]
        names := KeyIndex.setAllNew l.aliases r.languages.length (KeyIndex.set l.name r.languages.length r.names)
        extensions := KeyIndex.setAllNew l.extensions r.languages.length r.extensions }
  | removed {name : String} {i : Nat} (hfound : r.names.lookup (Text.lower name) = some i) :
      Changed r (.unregister name) (reindex (r.languages.eraseIdx i))
  | missing {name : String} (hnone : r.names.lookup (Text.lower name) = none) : Changed r (.unregister name) r

theorem changed (r : Registry) (c : Change) : Changed r c (r.change c) := by
  cases c with
  | register language extensions aliases =>
    rw [change, register]
    split
    · next i hi =>
      refine .replaced rfl ?_
      obtain ⟨hlt, hname, -⟩ := List.findIdx?_eq_some_iff_getElem.mp hi
      rw [order, List.getElem?_map, List.getElem?_eq_getElem hlt]
      exact congrArg some (of_decide_eq_true hname)
    · next hnone =>
      refine .added rfl fun hmem => ?_
      obtain ⟨m, hm, heq⟩ := List.mem_map.mp hmem
      have hfalse := List.findIdx?_eq_none_iff.mp hnone m hm
      simp [heq] at hfalse
  | unregister name =>
    rw [change, unregister?]
    cases hfound : r.names.lookup (Text.lower name) with
    | none => exact .missing hfound
    | some i => exact .removed hfound

theorem order_replaced {i : Nat} (hold : r.order[i]? = some l.name) :
    (reindex (r.languages.set i l)).order = r.order := by
  obtain ⟨hi, hname⟩ := List.getElem?_eq_some_iff.mp hold
  rw [order, reindex, List.map_set, ← hname]
  exact List.set_getElem_self hi

theorem Indexed.changed {c : Change} {s : Registry} (h : r.Indexed) (hc : Changed r c s) : s.Indexed := by
  cases hc with
  | replaced _ hold =>
    refine indexed_reindex ?_
    show (reindex _).order.Nodup
    rw [order_replaced hold]
    exact h.names_nodup
  | added _ hnew => exact h.add hnew
  | removed => exact indexed_reindex (h.names_nodup.sublist ((List.eraseIdx_sublist _ _).map _))
  | missing => exact h

theorem after_concat (changes : List Change) (c : Change) : after (changes ++ [c]) = (after changes).change c :=
  List.foldl_concat ..

theorem indexed_after (changes : List Change) : (after changes).Indexed := by
  induction changes using List.reverseRecOn with
  | nil => exact indexed_empty
  | append_singleton changes c ih =>
    rw [after_concat]
    exact ih.changed (changed _ c)

/-! ## The order of the languages -/

/-- A call that registers a language of a name. -/
def Change.Registers (c : Change) (name : String) : Prop :=
  ∃ language extensions aliases, c = .register language extensions aliases ∧ Text.lower language.name = name

/-- A call adds a new name at the end, or adds none and keeps the others in their order. -/
theorem Changed.order {c : Change} {s : Registry} (hc : Changed r c s) :
    s.order.Sublist r.order ∨ ∃ name, c.Registers name ∧ name ∉ r.order ∧ s.order = r.order ++ [name] := by
  cases hc with
  | replaced _ hold => exact .inl (order_replaced hold ▸ List.Sublist.refl _)
  | added hname hnew =>
    refine .inr ⟨_, ⟨_, _, _, rfl, hname.symm⟩, hnew, ?_⟩
    exact List.map_append
  | removed => exact .inl ((List.eraseIdx_sublist _ _).map _)
  | missing => exact .inl (List.Sublist.refl _)

theorem Changed.mem_order {c : Change} {s : Registry} {name : String} (hc : Changed r c s) (h : c.Registers name) :
    name ∈ s.order := by
  obtain ⟨language, extensions, aliases, rfl, rfl⟩ := h
  cases hc with
  | replaced hname hold =>
    rw [order_replaced hold, ← hname]
    exact List.mem_of_getElem? hold
  | added hname _ =>
    rw [← hname]
    exact List.mem_map.mpr ⟨_, List.mem_append_right _ List.mem_cons_self, rfl⟩

/-- The name came with call `i`, when no language had it, and has been there since. -/
structure EnteredAt (changes : List Change) (name : String) (i : Nat) : Prop where
  registers : ∃ c, changes[i]? = some c ∧ c.Registers name
  absent : name ∉ (after (changes.take i)).order
  stays : ∀ j, i < j → j ≤ changes.length → name ∈ (after (changes.take j)).order

variable {changes : List Change} {c : Change} {name : String} {i : Nat}

theorem EnteredAt.lt (h : EnteredAt changes name i) : i < changes.length := by
  obtain ⟨c, hc, -⟩ := h.registers
  exact (List.getElem?_eq_some_iff.mp hc).1

theorem EnteredAt.unique (h : EnteredAt changes name i) {j : Nat} (hj : EnteredAt changes name j) : i = j := by
  rcases Nat.lt_trichotomy i j with hlt | heq | hgt
  · exact absurd (h.stays j hlt hj.lt.le) hj.absent
  · exact heq
  · exact absurd (hj.stays i hgt h.lt.le) h.absent

/-- A further call leaves the moment at which a name came, if it leaves the name. -/
theorem EnteredAt.concat (h : EnteredAt changes name i) (hmem : name ∈ (after (changes ++ [c])).order) :
    EnteredAt (changes ++ [c]) name i where
  registers := by
    rw [List.getElem?_append_left h.lt]
    exact h.registers
  absent := by
    rw [List.take_append_of_le_length h.lt.le]
    exact h.absent
  stays j hij hj := by
    rw [List.length_append, List.length_singleton] at hj
    rcases Nat.lt_or_ge changes.length j with hlast | hle
    · rw [List.take_of_length_le (by simp; omega)]
      exact hmem
    · rw [List.take_append_of_le_length hle]
      exact h.stays j hij hle

theorem enteredAt_last (hnew : name ∉ (after changes).order) (hc : c.Registers name) :
    EnteredAt (changes ++ [c]) name changes.length where
  registers := ⟨c, List.getElem?_concat_length .., hc⟩
  absent := by rwa [List.take_left]
  stays j hlt hj := by
    rw [List.take_of_length_le (by simp; omega), after_concat]
    exact (changed _ c).mem_order hc

/-- One name came before another. -/
def Precedes (changes : List Change) (a b : String) : Prop :=
  ∃ i j, EnteredAt changes a i ∧ EnteredAt changes b j ∧ i < j

theorem order_after (changes : List Change) :
    (∀ name ∈ (after changes).order, ∃ i, EnteredAt changes name i) ∧
      (after changes).order.Pairwise (Precedes changes) := by
  induction changes using List.reverseRecOn with
  | nil => exact ⟨List.forall_mem_nil _, .nil⟩
  | append_singleton changes c ih =>
    obtain ⟨hentered, hordered⟩ := ih
    -- names that stay have come when they came before
    have hstay : ∀ name ∈ (after changes).order, name ∈ (after (changes ++ [c])).order →
        ∃ i, EnteredAt (changes ++ [c]) name i := fun name hold hmem =>
      (hentered name hold).imp fun _ h => h.concat hmem
    have hprecedes : ∀ {a b : String}, a ∈ (after (changes ++ [c])).order → b ∈ (after (changes ++ [c])).order →
        Precedes changes a b → Precedes (changes ++ [c]) a b := by
      rintro a b ha hb ⟨i, j, hi, hj, hlt⟩
      exact ⟨i, j, hi.concat ha, hj.concat hb, hlt⟩
    rcases after_concat changes c ▸ (changed (after changes) c).order with hsub | ⟨name, hc, hnew, horder⟩
    · refine ⟨fun name hmem => hstay name (hsub.subset hmem) hmem, ?_⟩
      exact (hordered.sublist hsub).imp_of_mem hprecedes
    · have hlast := enteredAt_last hnew hc
      have hsub : (after changes).order ⊆ (after (changes ++ [c])).order :=
        horder ▸ List.subset_append_left _ _
      constructor
      · intro a ha
        rcases List.mem_append.mp (horder ▸ ha) with hold | hname
        · exact hstay a hold ha
        · obtain rfl := List.mem_singleton.mp hname
          exact ⟨_, hlast⟩
      · rw [horder, List.pairwise_append]
        refine ⟨hordered.imp_of_mem fun ha hb => hprecedes (hsub ha) (hsub hb), List.pairwise_singleton _ _, ?_⟩
        intro a ha b hb
        obtain rfl := List.mem_singleton.mp hb
        obtain ⟨i, hi⟩ := hentered a ha
        exact ⟨i, _, hi.concat (hsub ha), hlast, hi.lt⟩

/-- No call removes the name. -/
def Survives (changes : List Change) (name : String) : Prop :=
  ∀ j < changes.length, name ∈ (after (changes.take j)).order → name ∈ (after (changes.take (j + 1))).order

/-- A name that is never removed came with its first registration. -/
theorem EnteredAt.first (h : EnteredAt changes name i) (hsurvives : Survives changes name) {k : Nat} (hk : k < i)
    (hc : changes[k]? = some c) : ¬ c.Registers name := by
  intro hregisters
  have hpresent : ∀ j, k < j → j ≤ i → name ∈ (after (changes.take j)).order := by
    intro j hkj
    induction j, hkj using Nat.le_induction with
    | base =>
      intro _
      rw [List.take_add_one, hc, Option.toList_some, after_concat]
      exact (changed _ c).mem_order hregisters
    | succ j hkj ih => exact fun hji => hsurvives j (lt_of_lt_of_le hji h.lt.le) (ih (by omega))
  exact h.absent (hpresent i hk le_rfl)

/-! ## Every registry -/

theorem lt_of_placeOfName {k : String} (h : placeOfName languages k = some i) : i < languages.length := by
  rw [placeOfName, Option.or_eq_some_iff] at h
  rcases h with h | ⟨-, h⟩ <;> exact (List.findIdx?_eq_some_iff_getElem.mp h).1

/-- A registry as calls have to leave it. -/
structure WellKept (changes : List Change) (r : Registry) : Prop where
  /-- Canonical names are pairwise distinct. -/
  distinct : r.order.Nodup
  /-- Every place in an index is one of the list. -/
  inRange : (∀ entry ∈ r.names, entry.2 < r.languages.length) ∧ ∀ entry ∈ r.extensions, entry.2 < r.languages.length
  entered : ∀ name ∈ r.order, ∃! i, EnteredAt changes name i
  /-- The languages stand in the order in which their names came to stay. -/
  ordered : r.order.Pairwise (Precedes changes)
  /-- This is the order of first registrations, but for names that were removed and came back. -/
  first : ∀ name i, EnteredAt changes name i → Survives changes name →
    ∀ k < i, ∀ c, changes[k]? = some c → ¬ c.Registers name
  lookup : ∀ k, r.lookup? k = (r.languages.find? (·.name = Text.lower k)).or
    (r.languages.find? (·.aliases.contains (Text.lower k)))
  extension : ∀ ext, r.extensions.lookup ext = r.languages.findIdx? (·.extensions.contains ext)
  /-- The indexes are those that would be built anew. -/
  rebuilt : (∀ k, r.names.lookup k = (reindex r.languages).names.lookup k) ∧
    r.names.Perm (reindex r.languages).names ∧
    (∀ ext, r.extensions.lookup ext = (reindex r.languages).extensions.lookup ext) ∧
    r.extensions.Perm (reindex r.languages).extensions

/-- Whatever is registered, replaced and removed, by name or by alias, the indexes lead where the list of languages
says, and the list is in the order of arrival. -/
theorem wellKept_after (changes : List Change) : WellKept changes (after changes) := by
  have h := indexed_after changes
  have hrebuilt := indexed_reindex h.names_nodup
  have hnames : ∀ k, (after changes).names.lookup k = (reindex (after changes).languages).names.lookup k :=
    fun k => (h.lookup_names k).trans (hrebuilt.lookup_names k).symm
  have hextensions : ∀ ext,
      (after changes).extensions.lookup ext = (reindex (after changes).languages).extensions.lookup ext :=
    fun ext => (h.lookup_extensions ext).trans (hrebuilt.lookup_extensions ext).symm
  have hentered : ∀ name ∈ (after changes).order, ∃! i, EnteredAt changes name i := by
    intro name hmem
    obtain ⟨i, hi⟩ := (order_after changes).1 name hmem
    exact ⟨i, hi, fun j hj => hj.unique hi⟩
  refine ⟨h.names_nodup, ⟨fun entry hentry => ?_, fun entry hentry => ?_⟩, hentered, (order_after changes).2,
    fun name i hi hsurvives k hk c hc => hi.first hsurvives hk hc, fun k => ?_, h.lookup_extensions, hnames, ?_, hextensions, ?_⟩
  · exact lt_of_placeOfName ((h.lookup_names _).symm.trans (Dict.lookup_of_mem h.distinct_names hentry))
  · have hplace := (h.lookup_extensions _).symm.trans (Dict.lookup_of_mem h.distinct_extensions hentry)
    exact (List.findIdx?_eq_some_iff_getElem.mp hplace).1
  · rw [lookup?, h.lookup_names, placeOfName, List.find?_eq_bind_findIdx?_getElem?,
      List.find?_eq_bind_findIdx?_getElem?]
    cases hfound : (after changes).languages.findIdx? (·.name = Text.lower k) with
    | none => rfl
    | some i =>
      have hi := (List.findIdx?_eq_some_iff_getElem.mp hfound).1
      simp [List.getElem?_eq_getElem hi]
  · exact Dict.perm_of_lookup_eq h.distinct_names hrebuilt.distinct_names hnames
  · exact Dict.perm_of_lookup_eq h.distinct_extensions hrebuilt.distinct_extensions hextensions

/-- One of two languages is removed and registered again. -/
def returningChanges : List Change :=
  [.register { name := "A", displayName := "A" } [] [], .register { name := "B", displayName := "B" } [] [],
    .unregister "a", .register { name := "A", displayName := "A" } [] []]

/-- The other survives, and stands where its first registration put it. -/
theorem wellKept_after_returning :
    (EnteredAt returningChanges "b" 1 ∧ Survives returningChanges "b") ∧
      WellKept returningChanges (after returningChanges) ∧
      ∀ k < 1, ∀ c, returningChanges[k]? = some c → ¬ c.Registers "b" := by
  have hentered : EnteredAt returningChanges "b" 1 := by
    refine ⟨⟨_, rfl, _, _, _, rfl, by decide⟩, by decide +kernel, fun j hlt hle => ?_⟩
    have hafter : ∀ j < 5, 1 < j → "b" ∈ (after (returningChanges.take j)).order := by decide +kernel
    exact hafter j (Nat.lt_succ_of_le hle) hlt
  have hsurvives : Survives returningChanges "b" := by
    unfold Survives
    decide +kernel
  have hkept := wellKept_after returningChanges
  exact ⟨⟨hentered, hsurvives⟩, hkept, hkept.first "b" 1 hentered hsurvives⟩

/-- The one that came back was registered first, and stands last. -/
theorem returning_language_stands_last :
    (∃ c, returningChanges[0]? = some c ∧ c.Registers "a") ∧
      (∀ k < 1, ∀ c, returningChanges[k]? = some c → ¬ c.Registers "b") ∧
      (after returningChanges).order = ["b", "a"] := by
  refine ⟨⟨_, rfl, _, _, _, rfl, by decide⟩, fun k hk c hc => ?_, by decide +kernel⟩
  obtain rfl : k = 0 := by omega
  cases hc
  rintro ⟨language, extensions, aliases, hregister, hname⟩
  cases hregister
  exact absurd hname (by decide)

end Registry

end CodeIndex
