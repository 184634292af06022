import Mathlib.Data.List.Basic

/-!
# Machinery/Incremental — parsing a text that arrives in pieces

An incremental parser returns what is complete in its buffer and the rest, to be put in front of the
next piece.  When parsing more text goes on where it stopped (`Incremental`), the pieces do not
matter: `feed_eq` finds what one parse of the whole text finds.
-/

variable {α β : Type}

/-- Feed the pieces one by one: parse what is left and the next piece, keep the rest. -/
def feed (parse : List α → List β × List α) (chunks : List (List α)) : List β × List α :=
  chunks.foldl (fun (found, buffer) chunk =>
    let (items, rest) := parse (buffer ++ chunk)
    (found ++ items, rest)) ([], [])

/-- **More text is parsed from the rest on.** -/
structure Incremental (parse : List α → List β × List α) : Prop where
  nil : parse [] = ([], [])
  append : ∀ s t, parse (s ++ t) =
    ((parse s).1 ++ (parse ((parse s).2 ++ t)).1, (parse ((parse s).2 ++ t)).2)

variable {parse : List α → List β × List α}

/-- Nothing more is found in a rest. -/
theorem Incremental.rest (h : Incremental parse) (s : List α) :
    parse (parse s).2 = ([], (parse s).2) := by
  have happend := h.append s []
  rw [List.append_nil, List.append_nil] at happend
  obtain ⟨hfound, hrest⟩ := Prod.ext_iff.mp happend
  exact Prod.ext (List.self_eq_append_right.mp hfound) hrest.symm

/-- **The pieces do not matter.** -/
theorem feed_eq (h : Incremental parse) (chunks : List (List α)) :
    feed parse chunks = parse chunks.flatten := by
  have hloop : ∀ (chunks : List (List α)) (found : List β) (buffer : List α),
      parse buffer = ([], buffer) →
      chunks.foldl (fun (found, buffer) chunk =>
        let (items, rest) := parse (buffer ++ chunk)
        (found ++ items, rest)) (found, buffer) =
      (found ++ (parse (buffer ++ chunks.flatten)).1, (parse (buffer ++ chunks.flatten)).2) := by
    intro chunks
    induction chunks with
    | nil =>
      intro found buffer hbuffer
      rw [List.flatten_nil, List.append_nil, hbuffer, List.append_nil]
      rfl
    | cons chunk chunks ih =>
      intro found buffer hbuffer
      rw [List.foldl_cons, List.flatten_cons, ← List.append_assoc, h.append (buffer ++ chunk)]
      exact (ih _ _ (h.rest _)).trans (by rw [List.append_assoc])
  have hall := hloop chunks [] [] h.nil
  rw [List.nil_append, List.nil_append] at hall
  exact hall
