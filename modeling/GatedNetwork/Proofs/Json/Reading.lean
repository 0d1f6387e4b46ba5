import GatedNetwork.Proofs.Json.Scanning
import Mathlib.Data.List.Forall2

/-! Documents are read as they are written. The reader is followed byte by byte from a state to the
end of the document, so that what a value adds can be said whatever stands around it. -/

namespace GatedNetwork.Json

/-- From this state the reader goes through the bytes to their end and has the document. -/
inductive Reads : Reader → Bytes → Json → Prop where
  | done {r : Reader} {j : Json} (complete : r.result = some j) : Reads r [] j
  | blank {r : Reader} {b : UInt8} {rest : Bytes} {j : Json} (blank : isBlank b)
    (later : Reads r rest j) : Reads r (b :: rest) j
  | token {r r' : Reader} {b : UInt8} {rest rest' : Bytes} {t : Token} {j : Json}
    (visible : isBlank b = false) (scanned : scanToken b rest = some (t, rest'))
    (shorter : rest'.length ≤ rest.length) (step : r.step t = some r')
    (later : Reads r' rest' j) : Reads r (b :: rest) j

section Tokens

variable {r r' : Reader} {bs rest w : Bytes} {j : Json} {t : Token} {b : UInt8}

theorem Reads.tokens (h : Reads r bs j) {fuel : Nat} (enough : bs.length ≤ fuel) (seen : List Token) :
    ∃ ts r', scanAll fuel seen bs = some (seen.reverse ++ ts) ∧ ts.foldlM Reader.step r = some r' ∧
      r'.result = some j := by
  induction h generalizing fuel seen with
  | done complete => exact ⟨[], _, by simp [scanAll], rfl, complete⟩
  | blank blank later ih =>
    obtain ⟨fuel, rfl⟩ := Nat.exists_eq_add_of_le' (Nat.le_trans (Nat.le_add_left 1 _) enough)
    obtain ⟨ts, r', scan_eq, steps_eq, complete⟩ := ih (Nat.le_of_succ_le_succ enough) seen
    refine ⟨ts, r', ?_, steps_eq, complete⟩
    rw [scanAll, if_pos blank, scan_eq]
  | @token r r₁ b rest rest' t j visible scanned shorter step later ih =>
    obtain ⟨fuel, rfl⟩ := Nat.exists_eq_add_of_le' (Nat.le_trans (Nat.le_add_left 1 _) enough)
    obtain ⟨ts, r', scan_eq, steps_eq, complete⟩ :=
      ih (Nat.le_trans shorter (Nat.le_of_succ_le_succ enough)) (t :: seen)
    refine ⟨t :: ts, r', ?_, ?_, complete⟩
    · rw [scanAll, if_neg (by simp [visible]), scanned]
      simpa using scan_eq
    · rw [List.foldlM_cons, step]
      exact steps_eq

theorem read_of_reads (h : Reads {} bs j) : read bs = some j := by
  obtain ⟨ts, r, scan_eq, steps_eq, complete⟩ := h.tokens (Nat.le_refl _) []
  rw [List.reverse_nil, List.nil_append] at scan_eq
  rw [read, Json.tokens, scan_eq]
  change (ts.foldlM Reader.step {}).bind Reader.result = some j
  rw [steps_eq]
  exact complete

theorem Reads.blanks (h : Reads r rest j) (blank : ∀ b ∈ w, isBlank b) : Reads r (w ++ rest) j := by
  induction w with
  | nil => exact h
  | cons b w ih =>
    obtain ⟨first, later⟩ := List.forall_mem_cons.mp blank
    exact .blank first (ih later)

theorem Reads.mark (h : Reads r' rest j) (visible : isBlank b = false)
    (scanned : scanToken b rest = some (t, rest)) (step : r.step t = some r') :
    Reads r (b :: rest) j :=
  .token visible scanned (Nat.le_refl _) step h

theorem ends_blanks (blank : ∀ b ∈ w, isBlank b) (ends : Ends rest) : Ends (w ++ rest) := by
  cases w with
  | nil => exact ends
  | cons b w =>
    have first := blank b List.mem_cons_self
    refine ends_cons _ ?_
    simp only [isBlank, Bool.or_eq_true, beq_iff_eq] at first
    rcases first with ((rfl | rfl) | rfl) | rfl <;> decide

end Tokens

/-- A value may start here. -/
def Reader.Awaits (stack : List Frame) (r : Reader) : Prop :=
  r = ⟨stack, .value⟩ ∨ r = ⟨stack, .valueOrClose⟩

/-- The bytes are read as the value. -/
def Spells (bs : Bytes) (v : Json) : Prop :=
  ∀ stack (r : Reader) rest j, r.Awaits stack → Ends rest → Reads ⟨stack, .afterValue v⟩ rest j →
    Reads r (bs ++ rest) j

section Scalars

variable {l raw rest : Bytes} {stack : List Frame} {r : Reader} {j v : Json}

theorem Reader.Awaits.step_scalar (h : r.Awaits stack) (v : Json) :
    r.step (.scalar v) = some ⟨stack, .afterValue v⟩ := by
  rcases h with rfl | rfl <;> rfl

theorem spells_number (h : IsNumber l) : Spells l (.number l) := by
  intro stack r rest j awaits ends later
  have scanned := h.scanNumber_append ends
  obtain ⟨b, bs, rfl, first⟩ := h.head
  rw [List.cons_append] at scanned ⊢
  refine .token ?_ ((scanToken_of_number first _).trans (congrArg _ scanned)) ?_
    (awaits.step_scalar _) later
  · rcases first with rfl | digit
    · rfl
    · simp only [isDigit, Bool.and_eq_true, decide_eq_true_eq] at digit
      simp only [isBlank, Bool.or_eq_false_iff, beq_eq_false_iff_ne]
      refine ⟨⟨⟨?_, ?_⟩, ?_⟩, ?_⟩ <;> rintro rfl <;> exact absurd digit (by decide)
  · simp

theorem spells_string (plain : IsPlain raw) : Spells (quoted raw) (.string raw) := by
  intro stack r rest j awaits ends later
  have quoted_eq : quoted raw ++ rest = 34 :: (raw ++ 34 :: rest) := by simp [quoted]
  rw [quoted_eq]
  exact .token rfl (scanToken_quoted plain rest) (by simp; omega) (awaits.step_scalar _) later

theorem spells_null : Spells (ascii "null") .null := fun _ _ _ _ awaits _ later =>
  .token rfl rfl (Nat.le_add_right _ 3) (awaits.step_scalar _) later

theorem spells_bool (b : Bool) : Spells (ascii (if b then "true" else "false")) (.bool b) := by
  intro stack r rest j awaits ends later
  cases b with
  | true => exact .token rfl rfl (Nat.le_add_right _ 3) (awaits.step_scalar _) later
  | false => exact .token rfl rfl (Nat.le_add_right _ 4) (awaits.step_scalar _) later

end Scalars

/-- Elements behind each other, as the reader goes through them: where one may start, how it stands
when one is complete, and what it has when a bracket closes them all. Those seen so far are kept last
first. -/
structure Series (ε : Type) where
  before : List ε → Reader → Prop
  after : List ε → ε → Reader
  closed : List ε → Reader
  bracket : UInt8
  token : Token
  comma_step : ∀ seen x, ∃ r, (after seen x).step .comma = some r ∧ before (x :: seen) r
  close_step : ∀ seen x, (after seen x).step token = some (closed (x :: seen))
  scanned : ∀ rest, scanToken bracket rest = some (token, rest)
  visible : isBlank bracket = false
  ends : ∀ rest, Ends (bracket :: rest)

namespace Series

def items (stack : List Frame) : Series Json where
  before seen := Reader.Awaits (.items seen :: stack)
  after seen v := ⟨.items seen :: stack, .afterValue v⟩
  closed seen := ⟨stack, .afterValue (.array seen.reverse)⟩
  bracket := 93
  token := .closeArray
  comma_step _ _ := ⟨_, rfl, .inl rfl⟩
  close_step _ _ := rfl
  scanned _ := rfl
  visible := rfl
  ends _ := ends_cons _

def members (stack : List Frame) : Series (Bytes × Json) where
  before seen r := r = ⟨.members seen :: stack, .name⟩ ∨ r = ⟨.members seen :: stack, .nameOrClose⟩
  after seen m := ⟨.member m.1 seen :: stack, .afterValue m.2⟩
  closed seen := ⟨stack, .afterValue (.object seen.reverse)⟩
  bracket := 125
  token := .closeObject
  comma_step _ _ := ⟨_, rfl, .inl rfl⟩
  close_step _ _ := rfl
  scanned _ := rfl
  visible := rfl
  ends _ := ends_cons _

/-- The bytes are read as one element. -/
def Spells {ε : Type} (series : Series ε) (part : Bytes) (x : ε) : Prop :=
  ∀ seen r rest j, series.before seen r → Ends rest → Reads (series.after seen x) rest j →
    Reads r (part ++ rest) j

/-- Elements with commas between them and a bracket behind them, by induction on the elements. -/
theorem reads {ε : Type} (series : Series ε) {gap gap' rest : Bytes} {j : Json} {parts : List Bytes}
    {xs : List ε} (blank : ∀ b ∈ gap, isBlank b) (blank' : ∀ b ∈ gap', isBlank b)
    (spelled : List.Forall₂ series.Spells parts xs) (some_left : xs ≠ []) {seen : List ε} {r : Reader}
    (awaits : series.before seen r) (later : Reads (series.closed (xs.reverse ++ seen)) rest j) :
    Reads r (joined (44 :: gap) parts ++ (gap' ++ series.bracket :: rest)) j := by
  induction spelled generalizing seen r with
  | nil => exact absurd rfl some_left
  | @cons part x parts xs head tail ih =>
    cases tail with
    | nil =>
      have joined_eq : joined (44 :: gap) [part] = part := by simp [joined]
      rw [joined_eq]
      exact head seen r _ j awaits (ends_blanks blank' (series.ends rest))
        ((later.mark series.visible (series.scanned rest) (series.close_step seen x)).blanks blank')
    | @cons part' x' parts xs head' tail =>
      have joined_eq : joined (44 :: gap) (part :: part' :: parts) =
          part ++ 44 :: (gap ++ joined (44 :: gap) (part' :: parts)) := by
        simp [joined, List.intersperse]
      obtain ⟨r', step, awaits'⟩ := series.comma_step seen x
      have next := ih (List.cons_ne_nil _ _) awaits' (by simpa [List.append_assoc] using later)
      rw [joined_eq, List.append_assoc, List.cons_append, List.append_assoc]
      exact head seen r _ j awaits (ends_cons _) ((next.blanks blank).mark rfl rfl step)

end Series

section Brackets

variable {gap gap' gap'' : Bytes} {parts : List Bytes}

/-- An array whose items are written one after the other, with blanks between them. -/
theorem spells_array {items : List Json} (spelled : List.Forall₂ Spells parts items)
    (some_left : items ≠ []) (blank : ∀ b ∈ gap, isBlank b) (blank' : ∀ b ∈ gap', isBlank b)
    (blank'' : ∀ b ∈ gap'', isBlank b) :
    Spells (91 :: gap ++ joined (44 :: gap') parts ++ gap'' ++ [93]) (.array items) := by
  intro stack r rest j awaits ends later
  have opened : r.step .openArray = some ⟨.items [] :: stack, .valueOrClose⟩ := by
    rcases awaits with rfl | rfl <;> rfl
  have later : Reads ((Series.items stack).closed (items.reverse ++ [])) rest j := by
    simpa [Series.items] using later
  have inside := (Series.items stack).reads blank' blank''
    (spelled.imp fun part v h seen r rest j => h _ r rest j) some_left (.inr rfl) later
  have bytes_eq : 91 :: gap ++ joined (44 :: gap') parts ++ gap'' ++ [93] ++ rest =
      91 :: (gap ++ (joined (44 :: gap') parts ++ (gap'' ++ 93 :: rest))) := by simp
  rw [bytes_eq]
  exact (inside.blanks blank).mark rfl rfl opened

theorem spells_empty_array : Spells [91, 93] (.array []) := by
  intro stack r rest j awaits ends later
  have closed := later.mark (r := ⟨.items [] :: stack, .valueOrClose⟩) (b := 93) rfl rfl rfl
  refine closed.mark rfl rfl ?_
  rcases awaits with rfl | rfl <;> rfl

theorem spells_member {part : Bytes} {m : Bytes × Json} (plain : IsPlain m.1)
    (spelled : Spells part m.2) (blank : ∀ b ∈ gap, isBlank b) (stack : List Frame) :
    (Series.members stack).Spells (quoted m.1 ++ 58 :: gap ++ part) m := by
  intro seen r rest j awaits ends later
  have value := spelled _ _ rest j (.inl rfl) ends later
  have named : r.step (.scalar (.string m.1)) = some ⟨.member m.1 seen :: stack, .colon⟩ := by
    rcases awaits with rfl | rfl <;> rfl
  have bytes_eq : quoted m.1 ++ 58 :: gap ++ part ++ rest =
      34 :: (m.1 ++ 34 :: (58 :: (gap ++ (part ++ rest)))) := by simp [quoted]
  rw [bytes_eq]
  exact .token rfl (scanToken_quoted plain _) (by simp; omega) named
    ((value.blanks blank).mark rfl rfl rfl)

theorem spells_object {members : List (Bytes × Json)}
    (spelled : ∀ stack, List.Forall₂ (Series.members stack).Spells parts members)
    (some_left : members ≠ []) (blank : ∀ b ∈ gap, isBlank b) (blank' : ∀ b ∈ gap', isBlank b)
    (blank'' : ∀ b ∈ gap'', isBlank b) :
    Spells (123 :: gap ++ joined (44 :: gap') parts ++ gap'' ++ [125]) (.object members) := by
  intro stack r rest j awaits ends later
  have opened : r.step .openObject = some ⟨.members [] :: stack, .nameOrClose⟩ := by
    rcases awaits with rfl | rfl <;> rfl
  have later : Reads ((Series.members stack).closed (members.reverse ++ [])) rest j := by
    simpa [Series.members] using later
  have inside := (Series.members stack).reads blank' blank'' (spelled stack) some_left (.inr rfl)
    later
  have bytes_eq : 123 :: gap ++ joined (44 :: gap') parts ++ gap'' ++ [125] ++ rest =
      123 :: (gap ++ (joined (44 :: gap') parts ++ (gap'' ++ 125 :: rest))) := by simp
  rw [bytes_eq]
  exact (inside.blanks blank).mark rfl rfl opened

theorem spells_empty_object : Spells [123, 125] (.object []) := by
  intro stack r rest j awaits ends later
  have closed := later.mark (r := ⟨.members [] :: stack, .nameOrClose⟩) (b := 125) rfl rfl rfl
  refine closed.mark rfl rfl ?_
  rcases awaits with rfl | rfl <;> rfl

end Brackets

/-- All literals are numbers, and no string or name has escapes. -/
inductive Legible : Json → Prop where
  | null : Legible .null
  | bool (b : Bool) : Legible (.bool b)
  | number {l : Bytes} (h : IsNumber l) : Legible (.number l)
  | string {raw : Bytes} (plain : IsPlain raw) : Legible (.string raw)
  | array {items : List Json} (legible : ∀ v ∈ items, Legible v) : Legible (.array items)
  | object {members : List (Bytes × Json)} (plain : ∀ m ∈ members, IsPlain m.1)
    (legible : ∀ m ∈ members, Legible m.2) : Legible (.object members)

section Documents

variable {j : Json}

theorem compactItems_eq (items : List Json) : compactItems items = items.map compact := by
  induction items with
  | nil => rw [compactItems, List.map_nil]
  | cons v items ih => rw [compactItems, ih, List.map_cons]

theorem compactMembers_eq (members : List (Bytes × Json)) :
    compactMembers members = members.map fun m => quoted m.1 ++ ascii ":" ++ compact m.2 := by
  induction members with
  | nil => rw [compactMembers, List.map_nil]
  | cons m members ih => rw [compactMembers, ih, List.map_cons]

theorem indentedItems_eq (level : Nat) (items : List Json) :
    indentedItems level items = items.map (indented level) := by
  induction items with
  | nil => rw [indentedItems, List.map_nil]
  | cons v items ih => rw [indentedItems, ih, List.map_cons]

theorem indentedMembers_eq (level : Nat) (members : List (Bytes × Json)) :
    indentedMembers level members =
      members.map fun m => quoted m.1 ++ ascii ": " ++ indented level m.2 := by
  induction members with
  | nil => rw [indentedMembers, List.map_nil]
  | cons m members ih => rw [indentedMembers, ih, List.map_cons]

theorem forall₂_map {α : Type} {R : Bytes → α → Prop} {f : α → Bytes} {xs : List α}
    (h : ∀ x ∈ xs, R (f x) x) : List.Forall₂ R (xs.map f) xs := by
  rw [List.forall₂_map_left_iff]
  exact List.forall₂_same.mpr h

theorem no_blank : ∀ b ∈ ([] : Bytes), isBlank b := nofun

theorem Legible.spells_compact (h : Legible j) : Spells j.compact j := by
  induction h with
  | null => exact spells_null
  | bool b =>
    have spelled := spells_bool b
    cases b <;> exact spelled
  | number h => exact spells_number h
  | string plain => exact spells_string plain
  | @array items legible ih =>
    rw [compact, compactItems_eq]
    cases items with
    | nil => exact spells_empty_array
    | cons v items =>
      have spelled := spells_array (forall₂_map ih) (List.cons_ne_nil v items) no_blank no_blank no_blank
      simpa using! spelled
  | @object members plain legible ih =>
    rw [compact, compactMembers_eq]
    cases members with
    | nil => exact spells_empty_object
    | cons m members =>
      have spelled := spells_object
        (fun stack => forall₂_map fun m hm => spells_member (plain m hm) (ih m hm) no_blank stack)
        (List.cons_ne_nil m members) no_blank no_blank no_blank
      simpa using! spelled

theorem blank_lineBreak (level : Nat) : ∀ b ∈ lineBreak level, isBlank b := by
  intro b hb
  rcases List.mem_cons.mp hb with rfl | hb
  · rfl
  · rw [List.eq_of_mem_replicate hb]
    rfl

theorem Legible.spells_indented (h : Legible j) (level : Nat) : Spells (j.indented level) j := by
  induction h generalizing level with
  | null => exact spells_null
  | bool b =>
    have spelled := spells_bool b
    cases b <;> exact spelled
  | number h => exact spells_number h
  | string plain => exact spells_string plain
  | @array items legible ih =>
    rw [indented, indentedItems_eq]
    cases items with
    | nil => exact spells_empty_array
    | cons v items =>
      exact spells_array (forall₂_map fun v hv => ih v hv (level + 1)) (List.cons_ne_nil v items)
        (blank_lineBreak _) (blank_lineBreak _) (blank_lineBreak _)
  | @object members plain legible ih =>
    rw [indented, indentedMembers_eq]
    cases members with
    | nil => exact spells_empty_object
    | cons m members =>
      have blank : ∀ b ∈ ([32] : Bytes), isBlank b := List.forall_mem_singleton.mpr rfl
      exact spells_object
        (fun stack => forall₂_map fun m hm =>
          spells_member (plain m hm) (ih m hm (level + 1)) blank stack)
        (List.cons_ne_nil m members) (blank_lineBreak _) (blank_lineBreak _) (blank_lineBreak _)

theorem read_of_spells {bs : Bytes} (h : Spells bs j) : read bs = some j := by
  have reads := h [] {} [] j (.inl rfl) ends_nil (.done rfl)
  rw [List.append_nil] at reads
  exact read_of_reads reads

theorem Legible.read_compact (h : Legible j) : read j.compact = some j :=
  read_of_spells h.spells_compact

theorem Legible.read_indented (h : Legible j) (level : Nat) : read (j.indented level) = some j :=
  read_of_spells (h.spells_indented level)

end Documents

end GatedNetwork.Json
