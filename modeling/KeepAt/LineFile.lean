import Mathlib.Data.List.Induction

namespace KeepAt

namespace LineFile

variable {α β : Type*}

/-- Parse each line but the empty ones, counting those that do not parse. -/
def collect (parse : List β → Option α) : List (List β) → List α × Nat
  | [] => ([], 0)
  | line :: rest =>
    let (records, skipped) := collect parse rest
    if line = [] then (records, skipped)
    else
      match parse line with
      | some r => (r :: records, skipped)
      | none => (records, skipped + 1)

def read [DecidableEq β] (nl : β) (parse : List β → Option α) (data : List β) : List α × Nat :=
  collect parse (data.splitOn nl)

/-- One line for each record, each ended by the separator. -/
def write (nl : β) (encode : α → List β) (records : List α) : List β :=
  records.flatMap fun r => encode r ++ [nl]

/-- Nothing stands after the last separator. -/
def AtLineStart (nl : β) (data : List β) : Prop := ∀ b ∈ data.getLast?, b = nl

/-- The text of a line that is read back as this record. -/
structure Encodes (nl : β) (parse : List β → Option α) (text : List β) (r : α) : Prop where
  single : nl ∉ text
  nonempty : text ≠ []
  parses : parse text = some r

variable {nl : β} {parse : List β → Option α}

theorem collect_append (xs ys : List (List β)) :
    collect parse (xs ++ ys) =
      ((collect parse xs).1 ++ (collect parse ys).1, (collect parse xs).2 + (collect parse ys).2) := by
  induction xs with
  | nil => simp [collect]
  | cons line rest ih =>
    simp only [List.cons_append, collect, ih]
    by_cases hl : line = []
    · simp [hl]
    · cases hp : parse line with
      | none => simp [hl, Nat.add_right_comm]
      | some r => simp [hl]

theorem atLineStart_nil : AtLineStart nl ([] : List β) := fun _ hb => by cases hb

theorem atLineStart_append_line (data text : List β) : AtLineStart nl (data ++ (text ++ [nl])) := by
  rw [← List.append_assoc]
  intro b hb
  rw [List.getLast?_concat] at hb
  exact (Option.some.inj hb).symm

theorem AtLineStart.eq {data : List β} (h : AtLineStart nl data) :
    data = [] ∨ ∃ front, data = front ++ [nl] := by
  cases data using List.reverseRecOn with
  | nil => exact Or.inl rfl
  | append_singleton front b =>
    obtain rfl := h b List.getLast?_concat
    exact Or.inr ⟨front, rfl⟩

theorem write_append (encode : α → List β) (xs ys : List α) :
    write nl encode (xs ++ ys) = write nl encode xs ++ write nl encode ys :=
  List.flatMap_append

theorem write_singleton (encode : α → List β) (r : α) : write nl encode [r] = encode r ++ [nl] :=
  List.flatMap_singleton _ r

theorem atLineStart_write (encode : α → List β) (records : List α) :
    AtLineStart nl (write nl encode records) := by
  cases records using List.reverseRecOn with
  | nil => exact atLineStart_nil
  | append_singleton front r =>
    rw [write_append, write_singleton]
    exact atLineStart_append_line _ _

variable [DecidableEq β]

instance (data : List β) : Decidable (AtLineStart nl data) :=
  inferInstanceAs (Decidable (∀ b ∈ data.getLast?, b = nl))

@[simp] theorem read_nil : read nl parse [] = ([], 0) := rfl

theorem read_append_cons (xs ys : List β) :
    read nl parse (xs ++ nl :: ys) =
      ((read nl parse xs).1 ++ (read nl parse ys).1, (read nl parse xs).2 + (read nl parse ys).2) := by
  unfold read
  rw [List.splitOn_append_cons_self, collect_append]

/-- What stands before the start of a line is read on its own, whatever follows. -/
theorem read_append {front : List β} (h : AtLineStart nl front) (more : List β) :
    read nl parse (front ++ more) =
      ((read nl parse front).1 ++ (read nl parse more).1,
        (read nl parse front).2 + (read nl parse more).2) := by
  rcases h.eq with rfl | ⟨lines, rfl⟩
  · simp
  · have hfront : read nl parse (lines ++ [nl]) = read nl parse lines := by
      rw [read_append_cons]
      simp
    rw [hfront, List.append_assoc, List.singleton_append]
    exact read_append_cons lines more

theorem read_line {text : List β} {r : α} (h : Encodes nl parse text r) :
    read nl parse (text ++ [nl]) = ([r], 0) := by
  have hsplit : text.splitOn nl = [text] := List.splitOn_eq_singleton h.single
  rw [read_append_cons]
  simp [read, hsplit, collect, h.nonempty, h.parses]

/-- Records written as lines are read back, in order and with nothing skipped. -/
theorem read_write {encode : α → List β} {records : List α}
    (h : ∀ r ∈ records, Encodes nl parse (encode r) r) :
    read nl parse (write nl encode records) = (records, 0) := by
  induction records using List.reverseRecOn with
  | nil => rfl
  | append_singleton front r ih =>
    have hfront := ih fun x hx => h x (List.mem_append_left _ hx)
    have hr := h r (List.mem_append_right _ (List.mem_singleton_self r))
    rw [write_append, write_singleton, read_append (atLineStart_write encode front), hfront, read_line hr]
    rfl

end LineFile

end KeepAt
