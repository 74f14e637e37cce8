import SessionGrid.Proofs.Json.Layout

/-!
# What is read

How a value at the front of a text was read, if one was (`ReadAs`), and the items and fields of the values
that have some. Whatever the text, the names of every object that is read ascend, and the value is nested
no deeper than the reader goes (`readValue_ordered`).
-/

namespace SessionGrid.Json

open Text

theorem word_eq_some {word cs rest : List Char} (read : Reader.word word cs = some rest) :
    cs = word ++ rest := by
  induction word generalizing cs with
  | nil =>
    cases read
    rfl
  | cons w word ih =>
    cases cs with
    | nil => cases read
    | cons c cs =>
      rw [Reader.word] at read
      split at read
      · next same => rw [same, ih read, List.cons_append]
      · cases read

/-! ## Items and fields -/

section Parts

variable {α κ σ : Type} {item : Reader α} {key : Reader κ} {field : κ → σ → Reader σ}
  {cs rest : List Char} {x : α} {xs : List α} {s s' : σ} {bound : Nat}

/-- The last item, or one before others. -/
theorem moreItems_eq_some (read : moreItems item (bound + 1) cs = some (xs, rest)) :
    ∃ x next, item cs = some (x, next) ∧
      (skip next = ']' :: rest ∧ xs = [x] ∨
        ∃ behind ys, skip next = ',' :: behind ∧ moreItems item bound (skip behind) = some (ys, rest) ∧
          xs = x :: ys) := by
  rw [moreItems] at read
  obtain ⟨⟨x, next⟩, first, read⟩ := Option.bind_eq_some_iff.1 read
  refine ⟨x, next, first, ?_⟩
  dsimp only at read
  split at read
  · next close =>
    cases read
    exact .inl ⟨close, rfl⟩
  · next behind comma =>
    obtain ⟨⟨ys, rest'⟩, others, same⟩ := Option.bind_eq_some_iff.1 read
    cases same
    exact .inr ⟨behind, ys, comma, others, rfl⟩
  · cases read

theorem items_eq_some (read : items item cs = some (xs, rest)) :
    skip cs = ']' :: rest ∧ xs = [] ∨
      moreItems item (skip cs).length (skip cs) = some (xs, rest) := by
  rw [items] at read
  split at read
  · next close =>
    cases read
    exact .inl ⟨close, rfl⟩
  · exact .inr read

/-- What holds of every item that can be read holds of all that were read. -/
theorem items_forall {p : α → Prop} (each : ∀ {cs x rest}, item cs = some (x, rest) → p x)
    (read : items item cs = some (xs, rest)) : ∀ x ∈ xs, p x := by
  have more : ∀ bound {cs xs}, moreItems item bound cs = some (xs, rest) → ∀ x ∈ xs, p x := by
    intro bound
    induction bound with
    | zero => exact fun read => nomatch read
    | succ bound ih =>
      intro cs xs read
      obtain ⟨x, next, first, ⟨-, rfl⟩ | ⟨behind, ys, -, others, rfl⟩⟩ := moreItems_eq_some read
      · exact List.forall_mem_singleton.2 (each first)
      · exact List.forall_mem_cons.2 ⟨each first, ih others⟩
  rcases items_eq_some read with ⟨-, rfl⟩ | read
  · exact nofun
  · exact more _ read

/-- The last field, or one before others. -/
theorem moreFields_eq_some (read : moreFields key field (bound + 1) s cs = some (s', rest)) :
    ∃ k next value s₁ next', key cs = some (k, next) ∧ skip next = ':' :: value ∧
      field k s (skip value) = some (s₁, next') ∧
      (skip next' = '}' :: rest ∧ s' = s₁ ∨
        ∃ behind, skip next' = ',' :: behind ∧
          moreFields key field bound s₁ (skip behind) = some (s', rest)) := by
  rw [moreFields] at read
  obtain ⟨⟨k, next⟩, name, read⟩ := Option.bind_eq_some_iff.1 read
  dsimp only at read
  split at read
  · next value colon =>
    obtain ⟨⟨s₁, next'⟩, first, read⟩ := Option.bind_eq_some_iff.1 read
    refine ⟨k, next, value, s₁, next', name, colon, first, ?_⟩
    dsimp only at read
    split at read
    · next close =>
      cases read
      exact .inl ⟨close, rfl⟩
    · next behind comma => exact .inr ⟨behind, comma, read⟩
    · cases read
  · cases read

theorem fields_eq_some (read : fields key field s cs = some (s', rest)) :
    skip cs = '}' :: rest ∧ s' = s ∨
      moreFields key field (skip cs).length s (skip cs) = some (s', rest) := by
  rw [fields] at read
  split at read
  · next close =>
    cases read
    exact .inl ⟨close, rfl⟩
  · exact .inr read

/-- What every field keeps is kept by all fields. -/
theorem fields_induction {p : σ → Prop}
    (each : ∀ {k s cs s' rest}, p s → field k s cs = some (s', rest) → p s') (start : p s)
    (read : fields key field s cs = some (s', rest)) : p s' := by
  have more : ∀ bound {s cs}, p s → moreFields key field bound s cs = some (s', rest) → p s' := by
    intro bound
    induction bound with
    | zero => exact fun _ read => nomatch read
    | succ bound ih =>
      intro s cs before read
      obtain ⟨k, next, value, s₁, next', -, -, first, ⟨-, rfl⟩ | ⟨behind, -, others⟩⟩ :=
        moreFields_eq_some read
      · exact each before first
      · exact ih (each before first) others
  rcases fields_eq_some read with ⟨-, rfl⟩ | read
  · exact start
  · exact more _ start read

theorem readString_eq_some {s : String} (read : readString cs = some (s, rest)) :
    ∃ inner t, cs = '"' :: inner ∧ stringTail none inner = some (t, rest) ∧ s = String.ofList t := by
  unfold readString at read
  split at read
  · next inner =>
    obtain ⟨⟨t, rest'⟩, tail, same⟩ := Option.map_eq_some_iff.1 read
    cases same
    exact ⟨inner, t, rfl, tail, rfl⟩
  · cases read

/-- A whole text is read from its first visible character on, and nothing visible is left. -/
theorem whole_eq_some {part : Reader α} {t : String} (read : whole part t = some x) :
    ∃ rest, part (skip t.toList) = some (x, rest) ∧ skip rest = [] := by
  rw [whole] at read
  split at read
  · next y rest first =>
    split at read
    · next done =>
      cases read
      exact ⟨rest, first, List.isEmpty_iff.1 done⟩
    · cases read
  · cases read

end Parts

/-! ## Values -/

/-- How the value at the front of a text was read. -/
inductive ReadAs (depth : Nat) (cs rest : List Char) : Json → Prop where
  | null (text : cs = writeCompact .null ++ rest) : ReadAs depth cs rest .null
  | bool (b : Bool) (text : cs = writeCompact (.bool b) ++ rest) : ReadAs depth cs rest (.bool b)
  | string {s : String} (read : readString cs = some (s, rest)) : ReadAs depth cs rest (.string s)
  | number {l : Literal} {n : JsonNumber} (read : Literal.read cs = some (l, rest))
    (value : l.value? = some n) : ReadAs depth cs rest (.number n)
  | array {d : Nat} {inner : List Char} {xs : List Json} (deeper : depth = d + 1)
    (text : cs = '[' :: inner) (read : items (readValue d) inner = some (xs, rest)) :
    ReadAs depth cs rest (.array xs)
  | object {d : Nat} {inner : List Char} {fs : Bindings Json} (deeper : depth = d + 1)
    (text : cs = '{' :: inner)
    (read : fields readString
      (fun k b cs => (readValue d cs).map fun (x, rest) => (Bindings.insert k x b, rest)) [] inner =
        some (fs, rest)) :
    ReadAs depth cs rest (.object fs)

section Values

variable {cs rest : List Char} {v : Json} {depth : Nat}

theorem readScalar_readAs (read : readScalar cs = some (v, rest)) : ReadAs depth cs rest v := by
  unfold readScalar at read
  split at read
  · obtain ⟨_, word, same⟩ := Option.map_eq_some_iff.1 read
    cases same
    exact .null (congrArg _ (word_eq_some word))
  · obtain ⟨_, word, same⟩ := Option.map_eq_some_iff.1 read
    cases same
    exact .bool true (congrArg _ (word_eq_some word))
  · obtain ⟨_, word, same⟩ := Option.map_eq_some_iff.1 read
    cases same
    exact .bool false (congrArg _ (word_eq_some word))
  · obtain ⟨⟨s, rest'⟩, string, same⟩ := Option.map_eq_some_iff.1 read
    cases same
    exact .string string
  · obtain ⟨⟨l, rest'⟩, literal, read⟩ := Option.bind_eq_some_iff.1 read
    obtain ⟨n, value, same⟩ := Option.bind_eq_some_iff.1 read
    cases same
    exact .number literal value

theorem readValue_readAs (read : readValue depth cs = some (v, rest)) : ReadAs depth cs rest v := by
  unfold readValue at read
  split at read
  · obtain ⟨⟨xs, rest'⟩, items, same⟩ := Option.map_eq_some_iff.1 read
    cases same
    exact .array rfl rfl items
  · obtain ⟨⟨fs, rest'⟩, fields, same⟩ := Option.map_eq_some_iff.1 read
    cases same
    exact .object rfl rfl fields
  · exact readScalar_readAs read

/-- A field taken in keeps the order, and is as good as what it was taken into. -/
theorem forall_insert {p : Json → Prop} {fs : Bindings Json} (before : ∀ f ∈ fs, p f.2) (k : String)
    {x : Json} (new : p x) : ∀ f ∈ Bindings.insert k x fs, p f.2 := by
  intro f mem
  rcases Bindings.mem_insert mem with rfl | old
  · exact new
  · exact before f old

/-- **Order.** A value that is read is in order and nested no deeper than the reader goes. -/
theorem readValue_ordered (read : readValue depth cs = some (v, rest)) :
    v.Ordered ∧ v.depth ≤ depth := by
  induction depth using Nat.strongRecOn generalizing cs rest v with
  | ind depth ih =>
    cases readValue_readAs read with
    | null => exact ⟨ordered_null, Nat.zero_le _⟩
    | bool b => exact ⟨ordered_bool b, Nat.zero_le _⟩
    | string => exact ⟨ordered_string _, Nat.zero_le _⟩
    | number => exact ⟨ordered_number _, Nat.zero_le _⟩
    | @array d inner xs deeper text items =>
      subst deeper
      have each : ∀ x ∈ xs, x.Ordered ∧ x.depth ≤ d :=
        items_forall (fun value => ih d (Nat.lt_succ_self d) value) items
      refine ⟨ordered_array.2 fun x mem => (each x mem).1, ?_⟩
      exact Nat.succ_le_succ (itemsDepth_le fun x mem => (each x mem).2)
    | @object d inner fs deeper text fields =>
      subst deeper
      have all : Bindings.Sorted fs ∧ ∀ f ∈ fs, f.2.Ordered ∧ f.2.depth ≤ d := by
        refine fields_induction
          (p := fun fs : Bindings Json => fs.Sorted ∧ ∀ f ∈ fs, f.2.Ordered ∧ f.2.depth ≤ d)
          ?_ ⟨List.Pairwise.nil, nofun⟩ fields
        rintro k fs cs fs' rest ⟨sorted, each⟩ field
        obtain ⟨⟨x, rest'⟩, value, same⟩ := Option.map_eq_some_iff.1 field
        cases same
        exact ⟨sorted.insert k x,
          forall_insert (p := fun x => x.Ordered ∧ x.depth ≤ d) each k
            (ih d (Nat.lt_succ_self d) value)⟩
      obtain ⟨sorted, each⟩ := all
      refine ⟨ordered_object.2 ⟨sorted, fun f mem => (each f mem).1⟩, ?_⟩
      exact Nat.succ_le_succ (fieldsDepth_le fun f mem => (each f mem).2)

end Values

end SessionGrid.Json
