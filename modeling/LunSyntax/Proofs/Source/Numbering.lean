import Mathlib.Data.List.Induction
import LunSyntax.SourceTree

/-!
# Numbers of sources

Sources are known by their paths, and spans know the paths by numbers of 16 bits.  Both are kept
apart, so it takes an argument that they fit: each number leads to a source, and each source has a
number as long as numbers last.

* `SourceTree.Operation`, `SourceTree.run`: all ways to make sources and to add to them;
* `SourceTree.path?_insert`: a source that is added gets a number of its own, if there is one left;
* `SourceTree.path?_ofSources`: the numbers of a list of sources, which start again from zero;
* `SourceTree.Operation.lost_apply`: one step loses a source only where numbers have run out;
* `SourceTree.run_numbers`: hence a run tells which of its sources have no number;
* `SourceTree.run_loses_path`: a source which is added after the last number has none.
-/

set_option autoImplicit false

namespace LunSyntax

theorem samePath_iff {a b : String} : samePath a b = true ↔ pathSteps a = pathSteps b := by
  simp [samePath]

namespace SourceTree

/-! ## Values by key -/

/-- What a key leads to after an assignment: the new value for the key itself, and for all others
what they had. -/
theorem find?_assign {κ α γ : Type} [DecidableEq γ] {same : κ → κ → Bool} {f : κ → γ}
    (hsame : ∀ a b, same a b = true ↔ f a = f b) (key k : κ) (value : α)
    (entries : List (κ × α)) :
    ((assign same key value entries).find? fun e => same e.1 k).map Prod.snd =
      if f key = f k then some value else (entries.find? fun e => same e.1 k).map Prod.snd := by
  have hfalse : ∀ {a b}, f a ≠ f b → same a b = false :=
    fun hne => Bool.eq_false_iff.2 fun htrue => hne ((hsame _ _).1 htrue)
  induction entries with
  | nil =>
    by_cases hk : f key = f k
    · simp [assign, hk, (hsame _ _).2 hk]
    · simp [assign, hk, hfalse hk]
  | cons entry rest ih =>
    obtain ⟨k', v⟩ := entry
    by_cases hkey : f k' = f key
    · -- the entry of the key itself
      rw [assign, if_pos ((hsame _ _).2 hkey)]
      by_cases hk : f key = f k
      · simp [hk, (hsame k' k).2 (hkey.trans hk)]
      · have hne : f k' ≠ f k := fun h => hk (hkey.symm.trans h)
        simp [hk, hfalse hne]
    · rw [assign, if_neg fun htrue => hkey ((hsame _ _).1 htrue)]
      by_cases hk' : f k' = f k
      · have hne : f key ≠ f k := fun h => hkey (hk'.trans h.symm)
        simp [hne, (hsame k' k).2 hk']
      · simp only [List.find?_cons, hfalse hk', ih]

variable {t : SourceTree} {id : UInt16} {path content p : String}

theorem path?_number (q : UInt16) :
    (t.number id path).path? q = if id = q then some path else t.path? q :=
  find?_assign (f := fun id => id) (fun _ _ => beq_iff_eq) id q path t.ids

theorem content?_store (q : String) :
    (t.store path content).content? q =
      if samePath path q = true then some content else t.content? q := by
  simp only [samePath_iff]
  exact find?_assign (fun a b => samePath_iff (a := a) (b := b)) path q content t.sources

@[simp]
theorem path?_store (q : UInt16) : (t.store path content).path? q = t.path? q := rfl

@[simp]
theorem content?_number (q : String) : (t.number id path).content? q = t.content? q := rfl

theorem path?_single (q : UInt16) :
    (single id path content).path? q = if id = q then some path else none :=
  path?_number q

theorem content?_single (q : String) :
    (single id path content).content? q = if samePath path q = true then some content else none :=
  content?_store q

/-! ## The largest number -/

theorem max_number (a b : UInt16) : max a b = if a ≤ b then b else a := rfl

/-- The largest of some numbers is none of them only if it was there before. -/
theorem foldl_max_spec (entries : List (UInt16 × String)) (acc : UInt16) :
    let largest := entries.foldl (fun acc e => max acc e.1) acc
    acc ≤ largest ∧ (∀ e ∈ entries, e.1 ≤ largest) ∧
      (largest = acc ∨ ∃ e ∈ entries, e.1 = largest) := by
  induction entries generalizing acc with
  | nil => simp
  | cons e rest ih =>
    obtain ⟨hacc, hrest, hmem⟩ := ih (max acc e.1)
    rw [List.foldl_cons]
    refine ⟨UInt16.le_trans ?_ hacc,
      List.forall_mem_cons.2 ⟨UInt16.le_trans ?_ hacc, hrest⟩, ?_⟩
    · rw [max_number]
      split
      · assumption
      · exact UInt16.le_refl _
    · rw [max_number]
      split
      · exact UInt16.le_refl _
      · exact (UInt16.le_total _ _).resolve_left ‹_›
    · rcases hmem with heq | ⟨e', he', heq⟩
      · rw [heq, max_number]
        split
        · exact .inr ⟨e, List.mem_cons_self .., rfl⟩
        · exact .inl rfl
      · exact .inr ⟨e', List.mem_cons_of_mem _ he', heq⟩

theorem isSome_path?_iff : (t.path? id).isSome ↔ ∃ e ∈ t.ids, e.1 = id := by
  simp [path?]

/-- No number is larger than the largest. -/
theorem le_lastId (h : (t.path? id).isSome) : id ≤ t.lastId := by
  obtain ⟨e, he, rfl⟩ := isSome_path?_iff.1 h
  exact (foldl_max_spec t.ids 0).2.1 e he

/-- The last number there is leads to a path, so that none is left. -/
def Full (t : SourceTree) : Prop := (t.path? maxSource.toUInt16).isSome

instance : Decidable t.Full :=
  inferInstanceAs (Decidable ((t.path? maxSource.toUInt16).isSome = true))

theorem full_iff : t.Full ↔ ¬ t.lastId.toNat < maxSource := by
  constructor
  · intro h
    have hle := UInt16.le_iff_toNat_le.1 (le_lastId h)
    exact Nat.not_lt.2 hle
  · intro h
    have hlast : t.lastId = maxSource.toUInt16 := by
      refine UInt16.toNat_inj.1 (Nat.le_antisymm ?_ (Nat.not_lt.1 h))
      exact Nat.le_of_lt_succ t.lastId.toNat_lt
    rcases (foldl_max_spec t.ids 0).2.2 with hzero | hmem
    · have heq : t.lastId = 0 := hzero
      rw [heq] at hlast
      cases hlast
    · obtain ⟨e, he, heq⟩ := hmem
      exact isSome_path?_iff.2 ⟨e, he, heq.trans hlast⟩

/-- The number after the largest one is free. -/
theorem path?_next (h : ¬ t.Full) : t.path? (t.lastId + 1) = none := by
  rw [full_iff, Decidable.not_not] at h
  have hnot : ¬ (t.path? (t.lastId + 1)).isSome := by
    intro hsome
    have hle := UInt16.le_iff_toNat_le.1 (le_lastId hsome)
    rw [UInt16.toNat_add] at hle
    unfold maxSource at h
    have hone : (1 : UInt16).toNat = 1 := rfl
    omega
  simpa using hnot

/-! ## Single sources -/

/-- A number leads to the path. -/
def Addresses (t : SourceTree) (path : String) : Prop :=
  ∃ id p, t.path? id = some p ∧ samePath p path = true

/-- A path has a source, but no number. -/
def Lost (t : SourceTree) (path : String) : Prop :=
  (t.content? path).isSome ∧ ¬ t.Addresses path

/-- **What the numbers lead to after an insertion**: the new path has the number after the largest
one, if there is one left, and all others have what they had. -/
theorem path?_insert (q : UInt16) :
    (t.insert path content).2.path? q =
      if ¬ t.Full ∧ t.lastId + 1 = q then some path else t.path? q := by
  unfold insert
  split
  · rename_i hlt
    have hleft : ¬ t.Full := fun hfull => full_iff.1 hfull hlt
    simp [path?_number, hleft]
  · rename_i hlt
    simp [full_iff.2 hlt]

theorem content?_insert (q : String) :
    (t.insert path content).2.content? q =
      if samePath path q = true then some content else t.content? q := by
  unfold insert
  split
  · exact content?_store q
  · exact content?_store q

/-- An insertion changes no path that a number has. -/
theorem path?_insert_of_some {q : UInt16} (h : t.path? q = some p) :
    (t.insert path content).2.path? q = some p := by
  rw [path?_insert, if_neg]
  · exact h
  · rintro ⟨hleft, rfl⟩
    rw [path?_next hleft] at h
    cases h

theorem Full.insert (h : t.Full) : (t.insert path content).2.Full := by
  unfold Full
  rw [path?_insert, if_neg fun hnot => hnot.1 h]
  exact h

theorem addresses_insert {q : String} :
    (t.insert path content).2.Addresses q ↔
      t.Addresses q ∨ ¬ t.Full ∧ samePath path q = true := by
  constructor
  · rintro ⟨id, p, hp, hsame⟩
    rw [path?_insert] at hp
    split at hp
    · rename_i hnext
      cases hp
      exact .inr ⟨hnext.1, hsame⟩
    · exact .inl ⟨id, p, hp, hsame⟩
  · rintro (⟨id, p, hp, hsame⟩ | ⟨hleft, hsame⟩)
    · exact ⟨id, p, path?_insert_of_some hp, hsame⟩
    · exact ⟨t.lastId + 1, path, by rw [path?_insert, if_pos ⟨hleft, rfl⟩], hsame⟩

/-! ## Lists of sources -/

/-- Numbers come round again after the last one. -/
theorem toUInt16_eq_iff {a b : Nat} :
    a.toUInt16 = b.toUInt16 ↔ a % (maxSource + 1) = b % (maxSource + 1) := by
  rw [← UInt16.toNat_inj]
  simp [Nat.toUInt16, UInt16.toNat_ofNat', maxSource]

theorem addFrom_append (t : SourceTree) (index : Nat) (sources : List (String × String))
    (s : String × String) : t.addFrom index (sources ++ [s]) =
      ((t.addFrom index sources).store s.1 s.2).number (index + sources.length + 1).toUInt16
        s.1 := by
  induction sources generalizing t index with
  | nil => rfl
  | cons first rest ih =>
    obtain ⟨path, content⟩ := first
    rw [List.cons_append, addFrom, ih, addFrom, List.length_cons]
    congr 3
    omega

theorem content?_ofSources (sources : List (String × String)) (root : Option String) :
    ((ofSources sources root).content? p).isSome ↔ ∃ s ∈ sources, samePath s.1 p = true := by
  induction sources using List.reverseRecOn with
  | nil => simp [ofSources, addFrom, empty, content?]
  | append_singleton sources s ih =>
    unfold ofSources at ih ⊢
    rw [addFrom_append, content?_number, content?_store]
    split
    · simp_all
    · rw [ih]
      simp_all

/-- **The numbers of a list of sources**: they go up from one, and after the last number there is
from zero again, so a source keeps its number unless there are 65536 more. -/
theorem path?_ofSources (sources : List (String × String)) (root : Option String) (id : UInt16) :
    (ofSources sources root).path? id = some p ↔
      ∃ i, ∃ h : i < sources.length, (i + 1).toUInt16 = id ∧ sources.length ≤ i + (maxSource + 1) ∧
        sources[i].1 = p := by
  induction sources using List.reverseRecOn with
  | nil => simp [ofSources, addFrom, empty, path?]
  | append_singleton sources s ih =>
    unfold ofSources at ih ⊢
    rw [addFrom_append, path?_number, path?_store, Nat.zero_add]
    have hlength : (sources ++ [s]).length = sources.length + 1 := by simp
    -- the last source has its number in place of one 65536 before it
    split
    · rename_i hid
      constructor
      · rintro ⟨⟩
        exact ⟨sources.length, by omega, hid, by omega, by simp⟩
      · rintro ⟨i, hi, rfl, hle, hget⟩
        obtain rfl : i = sources.length := by
          rw [toUInt16_eq_iff] at hid
          unfold maxSource at hid hle
          omega
        simpa using hget
    · rename_i hid
      rw [ih]
      constructor
      · rintro ⟨i, hi, rfl, hle, hget⟩
        refine ⟨i, by omega, rfl, ?_, ?_⟩
        · rw [toUInt16_eq_iff] at hid
          unfold maxSource at hid hle ⊢
          omega
        · rw [List.getElem_append_left hi]
          exact hget
      · rintro ⟨i, hi, rfl, hle, hget⟩
        have hne : i ≠ sources.length := by
          rintro rfl
          exact hid rfl
        have hlt : i < sources.length := by omega
        refine ⟨i, hlt, rfl, by omega, ?_⟩
        rwa [List.getElem_append_left hlt] at hget

theorem addresses_ofSources (sources : List (String × String)) (root : Option String) :
    (ofSources sources root).Addresses p ↔
      ∃ s ∈ sources.drop (sources.length - (maxSource + 1)), samePath s.1 p = true := by
  constructor
  · rintro ⟨id, q, hq, hsame⟩
    obtain ⟨i, hi, -, hle, rfl⟩ := (path?_ofSources sources root id).1 hq
    have hindex : sources.length - (maxSource + 1) +
        (i - (sources.length - (maxSource + 1))) = i := by omega
    refine ⟨sources[i], List.mem_drop_iff_getElem.2 ?_, hsame⟩
    exact ⟨i - (sources.length - (maxSource + 1)), by omega, by simp only [hindex]⟩
  · rintro ⟨s, hs, hsame⟩
    obtain ⟨i, hi, rfl⟩ := List.mem_drop_iff_getElem.1 hs
    have hlt : sources.length - (maxSource + 1) + i < sources.length := by omega
    have hle : sources.length ≤ sources.length - (maxSource + 1) + i + (maxSource + 1) := by
      omega
    exact ⟨_, _, (path?_ofSources sources root (_ + 1).toUInt16).2 ⟨_, hlt, rfl, hle, rfl⟩,
      hsame⟩

/-- Of more sources than there are numbers, one has the last number. -/
theorem full_ofSources {sources : List (String × String)} {root : Option String}
    (h : maxSource < sources.length) : (ofSources sources root).Full := by
  -- the last of the sources whose numbers are the last one
  let i := maxSource - 1 + (sources.length - maxSource) / (maxSource + 1) * (maxSource + 1)
  have hi : i < sources.length ∧ sources.length ≤ i + (maxSource + 1) ∧
      (i + 1) % (maxSource + 1) = maxSource % (maxSource + 1) := by
    unfold maxSource at h
    simp only [i, maxSource]
    omega
  exact Option.isSome_iff_exists.2 ⟨_, (path?_ofSources sources root _).2
    ⟨i, hi.1, toUInt16_eq_iff.2 hi.2.2, hi.2.1, rfl⟩⟩

/-! ## Runs -/

/-- A way to make sources, or to add one. -/
inductive Operation where
  | ofSources (sources : List (String × String)) (root : Option String)
  | ofSource (source : String)
  | single (path content : String)
  | singleWithId (id : UInt16) (path content : String)
  | insert (path content : String)

namespace Operation

/-- The sources after an operation, also after an insertion which finds no number left. -/
def apply (t : SourceTree) : Operation → SourceTree
  | ofSources sources root => SourceTree.ofSources sources root
  | ofSource source => SourceTree.ofSource source
  | single path content => SourceTree.single defaultSource path content
  | singleWithId id path content => SourceTree.single id path content
  | insert path content => (t.insert path content).2

/-- Whether the operation adds to the sources there are. -/
def IsInsert : Operation → Prop
  | insert _ _ => True
  | _ => False

/-- A path gets a source but no number, since numbers have run out: it is inserted after the last
number was taken, or all of its places in a list of sources are 65536 or more before the end. -/
def Loses (t : SourceTree) (path : String) : Operation → Prop
  | insert p _ => samePath p path = true ∧ t.Full ∧ ¬ t.Addresses path
  | ofSources sources _ => (∃ s ∈ sources, samePath s.1 path = true) ∧
    ∀ s ∈ sources.drop (sources.length - (maxSource + 1)), samePath s.1 path = false
  | _ => False

end Operation

/-- The sources after some operations, from none on. -/
def run (ops : List Operation) : SourceTree := ops.foldl Operation.apply empty

theorem run_append (ops : List Operation) (op : Operation) :
    run (ops ++ [op]) = op.apply (run ops) := by
  simp [run]

/-- Each number leads to a path with a source, and only where no number is left is there a path
without one. -/
structure Numbered (t : SourceTree) : Prop where
  stored : ∀ id path, t.path? id = some path → (t.content? path).isSome
  full : ∀ path, t.Lost path → t.Full

theorem single_numbered (id : UInt16) (path content : String) :
    (single id path content).Numbered ∧ ∀ p, ¬ (single id path content).Lost p := by
  have hlost : ∀ p, ¬ (single id path content).Lost p := by
    rintro p ⟨hstored, haddresses⟩
    rw [content?_single] at hstored
    split at hstored
    · rename_i hsame
      exact haddresses ⟨id, path, by rw [path?_single, if_pos rfl], hsame⟩
    · cases hstored
  refine ⟨⟨fun q p hp => ?_, fun p h => absurd h (hlost p)⟩, hlost⟩
  rw [path?_single] at hp
  split at hp
  · cases hp
    rw [content?_single, if_pos (samePath_iff.2 rfl)]
    rfl
  · cases hp

theorem lost_ofSources (sources : List (String × String)) (root : Option String) (path : String) :
    (ofSources sources root).Lost path ↔ (Operation.ofSources sources root).Loses t path := by
  unfold Lost Operation.Loses
  rw [content?_ofSources, addresses_ofSources]
  simp

theorem ofSources_numbered (sources : List (String × String)) (root : Option String) :
    (ofSources sources root).Numbered := by
  refine ⟨fun id path hpath => ?_, fun path hlost => ?_⟩
  · obtain ⟨i, hi, -, -, rfl⟩ := (path?_ofSources sources root id).1 hpath
    exact (content?_ofSources sources root).2 ⟨_, List.getElem_mem hi, samePath_iff.2 rfl⟩
  · refine full_ofSources (Nat.lt_of_not_le fun hle => ?_)
    obtain ⟨⟨s, hs, hsame⟩, hnone⟩ := (lost_ofSources (t := empty) sources root path).1 hlost
    rw [Nat.sub_eq_zero_of_le (by omega), List.drop_zero] at hnone
    rw [hnone s hs] at hsame
    cases hsame

theorem Numbered.lost_insert (h : t.Numbered) {q : String} :
    (t.insert path content).2.Lost q ↔
      t.Lost q ∨ (Operation.insert path content).Loses t q := by
  unfold Lost Operation.Loses
  rw [content?_insert, addresses_insert]
  constructor
  · rintro ⟨hstored, hnone⟩
    obtain ⟨haddresses, hleft⟩ := not_or.1 hnone
    split at hstored
    · rename_i hsame
      have hfull : t.Full := Decidable.not_not.1 fun hnot => hleft ⟨hnot, hsame⟩
      exact .inr ⟨hsame, hfull, haddresses⟩
    · exact .inl ⟨hstored, haddresses⟩
  · rintro (hlost | ⟨hsame, hfull, haddresses⟩)
    · refine ⟨?_, not_or.2 ⟨hlost.2, fun hleft => hleft.1 (h.full q hlost)⟩⟩
      split
      · rfl
      · exact hlost.1
    · rw [if_pos hsame]
      exact ⟨rfl, not_or.2 ⟨haddresses, fun hleft => hleft.1 hfull⟩⟩

theorem Numbered.insert (h : t.Numbered) : (t.insert path content).2.Numbered := by
  refine ⟨fun id p hp => ?_, fun p hlost => ?_⟩
  · rw [content?_insert]
    split
    · rfl
    · rename_i hne
      rw [path?_insert] at hp
      split at hp
      · cases hp
        exact absurd (samePath_iff.2 rfl) hne
      · exact h.stored id p hp
  · rcases h.lost_insert.1 hlost with hlost | ⟨-, hfull, -⟩
    · exact (h.full p hlost).insert
    · exact hfull.insert

/-- **One step**: numbers lead to sources as before, and a source without a number was one already,
of sources that were added to, or has just found none left. -/
theorem Numbered.apply (h : t.Numbered) (op : Operation) :
    (op.apply t).Numbered ∧
      ∀ path, (op.apply t).Lost path ↔ op.IsInsert ∧ t.Lost path ∨ op.Loses t path := by
  have hone : ∀ (id : UInt16) (p c q : String),
      (single id p c).Lost q ↔ False ∧ t.Lost q ∨ False :=
    fun id p c q => by simp [(single_numbered id p c).2 q]
  cases op with
  | ofSources sources root =>
    refine ⟨ofSources_numbered sources root, fun path => ?_⟩
    simp only [Operation.apply, Operation.IsInsert, false_and, false_or]
    exact lost_ofSources sources root path
  | ofSource source => exact ⟨(single_numbered _ _ _).1, hone _ _ _⟩
  | single path content => exact ⟨(single_numbered _ _ _).1, hone _ _ _⟩
  | singleWithId id path content => exact ⟨(single_numbered _ _ _).1, hone _ _ _⟩
  | insert path content =>
    refine ⟨h.insert, fun q => ?_⟩
    simp only [Operation.apply, Operation.IsInsert, true_and]
    exact h.lost_insert

theorem run_numbered (ops : List Operation) : (run ops).Numbered := by
  induction ops using List.reverseRecOn with
  | nil =>
    refine ⟨fun id path hpath => ?_, fun path hlost => ?_⟩
    · cases hpath
    · cases hlost.1
  | append_singleton ops op ih =>
    rw [run_append]
    exact (ih.apply op).1

/-- **A run has lost a source** exactly if numbers had run out for it, and sources were only added
since. -/
theorem lost_run (ops : List Operation) (path : String) :
    (run ops).Lost path ↔ ∃ before op after, ops = before ++ op :: after ∧
      op.Loses (run before) path ∧ ∀ o ∈ after, o.IsInsert := by
  induction ops using List.reverseRecOn with
  | nil =>
    refine iff_of_false (fun hlost => ?_) ?_
    · cases hlost.1
    · simp
  | append_singleton ops last ih =>
    rw [run_append, ((run_numbered ops).apply last).2, ih]
    constructor
    · rintro (⟨hinsert, before, op, after, rfl, hloses, hafter⟩ | hloses)
      · refine ⟨before, op, after ++ [last], by simp, hloses, ?_⟩
        exact List.forall_mem_append.2 ⟨hafter, by simpa using hinsert⟩
      · exact ⟨ops, last, [], rfl, hloses, by simp⟩
    · rintro ⟨before, op, after, heq, hloses, hafter⟩
      rcases List.eq_nil_or_concat after with rfl | ⟨after, o, rfl⟩
      · obtain ⟨rfl, rfl⟩ := List.append_singleton_inj.1 heq
        exact .inr hloses
      · rw [List.concat_eq_append, ← List.cons_append, ← List.append_assoc] at heq
        obtain ⟨rfl, rfl⟩ := List.append_singleton_inj.1 heq
        rw [List.concat_eq_append] at hafter
        obtain ⟨hafter, hinsert⟩ := List.forall_mem_append.1 hafter
        exact .inl ⟨by simpa using hinsert, before, op, after, rfl, hloses, hafter⟩

/-- **Numbers of sources.**  After any operations, each number leads to a path with a source.  A
path with a source has a number, unless numbers had run out when it got its source.  An insertion
changes no path that a number has.  Of a list of sources, the one at `i` has the number `i + 1`,
unless that went to another one 65536 later. -/
theorem run_numbers (ops : List Operation) :
    (∀ id path, (run ops).path? id = some path → ((run ops).content? path).isSome) ∧
    (∀ path, (run ops).Lost path ↔ ∃ before op after, ops = before ++ op :: after ∧
      op.Loses (run before) path ∧ ∀ o ∈ after, o.IsInsert) ∧
    (∀ path content id p, (run ops).path? id = some p →
      ((run ops).insert path content).2.path? id = some p) ∧
    ∀ sources root i (h : i < sources.length), sources.length ≤ i + (maxSource + 1) →
      (ofSources sources root).path? (i + 1).toUInt16 = some sources[i].1 := by
  refine ⟨(run_numbered ops).stored, lost_run ops, fun path content id p hp => ?_,
    fun sources root i hi hle => ?_⟩
  · exact path?_insert_of_some hp
  · exact (path?_ofSources sources root _).2 ⟨i, hi, rfl, hle, rfl⟩

/-- A source which is added to two others. -/
theorem run_numbers_added :
    let sources := [("a.lun", "a :: 1;"), ("b.lun", "b :: 2;")]
    let ops := [Operation.ofSources sources none, .insert "c.lun" "c :: 3;"]
    (run ops).path? 3 = some "c.lun" ∧ ((run ops).content? "c.lun").isSome ∧
      ((run ops).insert "d.lun" "").2.path? 3 = some "c.lun" ∧
      (ofSources sources none).path? 2 = some "b.lun" := by
  intro sources ops
  have hpath : (run ops).path? 3 = some "c.lun" := by decide
  obtain ⟨hstored, -, hkept, hnumbers⟩ := run_numbers ops
  exact ⟨hpath, hstored 3 _ hpath, hkept "d.lun" "" 3 _ hpath,
    hnumbers sources none 1 (by decide) (by decide)⟩

/-- **A source which is added after the last number has none.** -/
theorem run_loses_path :
    ¬ ∀ ops path, ((run ops).content? path).isSome → (run ops).Addresses path := by
  intro h
  have hids : (run [.singleWithId 65535 "a.lun" "a :: 1;", .insert "b.lun" "b :: 2;"]).ids =
      [(65535, "a.lun")] := by decide
  obtain ⟨id, p, hp, hsame⟩ :=
    h [.singleWithId 65535 "a.lun" "a :: 1;", .insert "b.lun" "b :: 2;"] "b.lun" (by decide)
  obtain rfl : "a.lun" = p := by
    rw [path?, hids] at hp
    by_cases hid : (65535 : UInt16) = id
    · simpa [hid] using hp
    · simp [hid] at hp
  revert hsame
  decide

end SourceTree

end LunSyntax
