import KeepAt.Binary64
import KeepAt.KeyedList

namespace KeepAt

inductive Json where
  | null
  | bool (b : Bool)
  | int (i : Int)
  | float (x : F64)
  | str (s : String)
  | arr (items : List Json)
  | obj (members : List (String × Json))

abbrev JsonMembers := List (String × Json)

/-- One field of a record: a member that is named twice is refused, and one that nothing asks for is
skipped. -/
def jsonField {α : Type} (members : JsonMembers) (name : String) (absent : Option α)
    (de : Json → Option α) : Option α :=
  match members.filter fun m => m.1 = name with
  | [] => absent
  | [m] => de m.2
  | _ => none

def jsonNat (bound : Nat) : Json → Option Nat
  | .int i => if 0 ≤ i ∧ i ≤ bound then some i.toNat else none
  | _ => none

def jsonString : Json → Option String
  | .str s => some s
  | _ => none

def jsonOption {α : Type} (de : Json → Option α) : Json → Option (Option α)
  | .null => some none
  | j => (de j).map some

def jsonList {α : Type} (de : Json → Option α) : Json → Option (List α)
  | .arr items => items.mapM de
  | _ => none

/-- A map from strings: the last member of a name wins. -/
def jsonMap {α : Type} (de : Json → Option α) :
    Json → Option (KeyedList (Prod.fst : String × α → String))
  | .obj members => (members.mapM fun m => (de m.2).map (m.1, ·)).map fun xs => xs.foldl .insert .empty
  | _ => none

theorem jsonNat_int {bound n : Nat} (h : n ≤ bound) : jsonNat bound (.int n) = some n := by
  have hcast : (n : Int) ≤ bound := Int.ofNat_le.mpr h
  simp [jsonNat, hcast]

theorem jsonOption_eq {α : Type} {de : Json → Option α} {en : α → Json} {x : Option α}
    (hnull : ∀ a, en a ≠ .null) (h : ∀ a, x = some a → de (en a) = some a) :
    jsonOption de ((x.map en).getD .null) = some x := by
  cases x with
  | none => rfl
  | some a =>
    simp only [Option.map_some, Option.getD_some]
    unfold jsonOption
    split
    next he => exact absurd he (hnull a)
    next => rw [h a rfl]; rfl

theorem mapM_eq_some_map {α β : Type} {f : α → Option β} {g : α → β} {xs : List α}
    (h : ∀ x ∈ xs, f x = some (g x)) : xs.mapM f = some (xs.map g) := by
  induction xs with
  | nil => rfl
  | cons x xs ih =>
    obtain ⟨hx, hxs⟩ := List.forall_mem_cons.mp h
    rw [List.mapM_cons, hx, ih hxs]
    rfl

theorem filter_name {fields : JsonMembers} (hnodup : (fields.map Prod.fst).Nodup) {f : String × Json}
    (hf : f ∈ fields) : (fields.filter fun m => m.1 = f.1) = [f] := by
  induction fields with
  | nil => exact absurd hf List.not_mem_nil
  | cons g fields ih =>
    obtain ⟨hg, hrest⟩ := List.nodup_cons.mp hnodup
    rcases List.mem_cons.mp hf with rfl | hf
    · have hnone : (fields.filter fun m => m.1 = f.1) = [] := by
        refine List.filter_eq_nil_iff.mpr fun m hm => ?_
        rw [decide_eq_true_eq]
        exact fun he => hg (he ▸ List.mem_map_of_mem hm)
      rw [List.filter_cons_of_pos (by simp), hnone]
    · have hne : g.1 ≠ f.1 := fun he => hg (he ▸ List.mem_map_of_mem hf)
      rw [List.filter_cons_of_neg (by simpa using hne), ih hrest hf]

/-- The members hold each of the fields once, but for the dropped ones, in any order and among any
others. -/
def Holds (fields : JsonMembers) (dropped : String → Bool) (members : JsonMembers) : Prop :=
  ∀ f ∈ fields, (members.filter fun m => m.1 = f.1) = if dropped f.1 then [] else [f]

namespace Holds

variable {fields members extra : JsonMembers} {dropped : String → Bool}

theorem self (hnodup : (fields.map Prod.fst).Nodup) : Holds fields (fun _ => false) fields :=
  fun _ hf => filter_name hnodup hf

theorem of_perm (hnodup : (fields.map Prod.fst).Nodup) (hextra : ∀ m ∈ extra, m.1 ∉ fields.map Prod.fst)
    (hperm : members.Perm ((fields.filter fun m => !dropped m.1) ++ extra)) :
    Holds fields dropped members := by
  intro f hf
  have hnone : (extra.filter fun m => m.1 = f.1) = [] := by
    refine List.filter_eq_nil_iff.mpr fun m hm => ?_
    rw [decide_eq_true_eq]
    exact fun he => hextra m hm (he ▸ List.mem_map_of_mem hf)
  have hkept : ((fields.filter fun m => !dropped m.1).filter fun m => m.1 = f.1) =
      if dropped f.1 then [] else [f] := by
    have hcomm : ((fields.filter fun m => !dropped m.1).filter fun m => m.1 = f.1) =
        (fields.filter fun m => m.1 = f.1).filter fun m => !dropped m.1 := by
      rw [List.filter_filter, List.filter_filter]
      exact List.filter_congr fun m _ => Bool.and_comm _ _
    rw [hcomm, filter_name hnodup hf]
    cases hd : dropped f.1 <;> simp [hd]
  have hfiltered := hperm.filter fun m => decide (m.1 = f.1)
  rw [List.filter_append, hnone, List.append_nil, hkept] at hfiltered
  cases hd : dropped f.1 with
  | true =>
    rw [hd, if_pos rfl] at hfiltered
    exact hfiltered.eq_nil
  | false =>
    rw [hd, if_neg Bool.false_ne_true] at hfiltered
    exact List.perm_singleton.mp hfiltered

theorem read {α : Type} {name : String} {j : Json} {absent : Option α} {de : Json → Option α}
    (h : Holds fields dropped members) (hmem : (name, j) ∈ fields) :
    jsonField members name absent de = if dropped name then absent else de j := by
  have hread := h _ hmem
  unfold jsonField
  split at hread
  next hd => rw [hread, if_pos hd]
  next hd => rw [hread, if_neg hd]

theorem required {α : Type} {name : String} {j : Json} {absent : Option α} {de : Json → Option α} {a : α}
    (h : Holds fields dropped members) (hmem : (name, j) ∈ fields) (hkept : dropped name = false)
    (hde : de j = some a) : jsonField members name absent de = some a := by
  rw [h.read hmem, hkept, if_neg Bool.false_ne_true, hde]

theorem defaulted {α : Type} {name : String} {j : Json} {absent a : α} {de : Json → Option α}
    (h : Holds fields dropped members) (hmem : (name, j) ∈ fields) (hde : de j = some a) :
    jsonField members name (some absent) de = some (if dropped name then absent else a) := by
  rw [h.read hmem, hde]
  cases dropped name <;> rfl

end Holds

/-- A map read back holds each member under its name. -/
theorem mem_foldl_insert {α : Type} {xs : List (String × α)} (hnodup : (xs.map Prod.fst).Nodup)
    (m : KeyedList (Prod.fst : String × α → String)) (hfresh : ∀ x ∈ xs, ¬m.Has x.1) (x : String × α) :
    x ∈ (xs.foldl KeyedList.insert m).values ↔ x ∈ xs ∨ x ∈ m.values := by
  induction xs generalizing m with
  | nil => simp
  | cons y xs ih =>
    obtain ⟨hy, hrest⟩ := List.nodup_cons.mp hnodup
    obtain ⟨hfy, hfxs⟩ := List.forall_mem_cons.mp hfresh
    have hnext : ∀ z ∈ xs, ¬(m.insert y).Has z.1 := by
      intro z hz hhas
      rcases KeyedList.has_insert.mp hhas with he | hm
      · exact hy (he ▸ List.mem_map_of_mem hz)
      · exact hfxs z hz hm
    have hkept : x ∈ (m.insert y).values ↔ x = y ∨ x ∈ m.values := by
      rw [KeyedList.mem_insert]
      refine or_congr_right ⟨fun h => h.1, fun hx => ⟨hx, fun he => hfy ?_⟩⟩
      exact he ▸ KeyedList.has_of_mem hx
    rw [List.foldl_cons, ih hrest _ hnext, hkept, List.mem_cons, or_left_comm, or_assoc]

/-- A map is read as the members of an object with its names, each under its own. -/
theorem jsonMap_obj {α : Type} {de : Json → Option α} {members : JsonMembers} {xs : List (String × α)}
    (h : members.mapM (fun m => (de m.2).map (m.1, ·)) = some xs) (hnodup : (xs.map Prod.fst).Nodup) :
    ∃ m, jsonMap de (.obj members) = some m ∧ ∀ x, x ∈ m.values ↔ x ∈ xs := by
  refine ⟨xs.foldl .insert .empty, ?_, fun x => ?_⟩
  · rw [jsonMap, h]
    rfl
  · rw [mem_foldl_insert hnodup]
    · simp [KeyedList.empty]
    · exact fun _ _ => List.not_mem_nil

theorem find_of_values {α : Type} {m : KeyedList (Prod.fst : String × α → String)} {k : String}
    {x : Option α} (h : ∀ a, (k, a) ∈ m.values ↔ x = some a) : m.find k = x.map (k, ·) := by
  cases x with
  | some a => exact KeyedList.find_eq_some.mpr ⟨(h a).mpr rfl, rfl⟩
  | none =>
    refine KeyedList.find_eq_none.mpr fun hhas => ?_
    obtain ⟨⟨k', a⟩, ha, rfl⟩ := KeyedList.has_iff.mp hhas
    exact Option.some_ne_none a ((h a).mp ha).symm

end KeepAt
