import Mathlib.Data.List.Range
import SupportAgent.Machinery.Js
import SupportAgent.Machinery.KeySort
import SupportAgent.Machinery.Table

/-!
# Providers/OpenAIEmbedder — texts embedded batch by batch

`embed` sends its texts in batches; an answer carries with every vector its index in the batch, and
may come in any order.

* `vectorsOf_perm` — sorted by index, an answer gives the vectors of its batch.
* `embed_pairs` — the result of `embed` pairs every text with its vector.
-/

/-- One entry of an answer. -/
structure EmbeddingDatum where
  index : ℕ
  embedding : List JsNumber

/-- The arguments of `embeddings.create`. -/
structure CreateArgs where
  model : JsString
  input : List JsString
  dimensions : ℕ

/-- The client: what it answers a request with, after the requests made earlier. -/
structure OpenAIEmbeddingsClient where
  create : (earlier : List CreateArgs) → CreateArgs → Except JsError (List EmbeddingDatum)

def DEFAULT_BATCH_SIZE : ℕ := 96

structure OpenAIEmbedder where
  client : OpenAIEmbeddingsClient
  model : JsString
  dimensions : ℕ
  batchSize : ℕ := DEFAULT_BATCH_SIZE
  batchSize_pos : 0 < batchSize := by decide

/-- A computation that makes requests, with those made so far. -/
abbrev Requesting := StateT (List CreateArgs) (Except JsError)

/-- The vectors of an answer, in the order of their index. -/
def vectorsOf (data : List EmbeddingDatum) : List (List JsNumber) :=
  (data.mergeSort fun a b => decide (a.index ≤ b.index)).map (·.embedding)

namespace OpenAIEmbedder

/-- One turn of the loop. -/
def embedBatch (e : OpenAIEmbedder) (vectors : List (List JsNumber)) (batch : List JsString) :
    Requesting (List (List JsNumber)) := fun earlier => do
  let args : CreateArgs := ⟨e.model, batch, e.dimensions⟩
  let data ← e.client.create earlier args
  return (vectors ++ vectorsOf data, earlier ++ [args])

def embed (e : OpenAIEmbedder) (texts : List JsString) : Requesting (List (List JsNumber)) :=
  if texts = [] then return [] else (Table.slices e.batchSize texts).foldlM e.embedBatch []

end OpenAIEmbedder

/-! ## One answer -/

variable {f : JsString → List JsNumber}

/-- The entries of a full answer: every index of the batch with the vector of the text there. -/
def answerTo (f : JsString → List JsNumber) (input : List JsString) : List EmbeddingDatum :=
  input.mapIdx fun i text => ⟨i, f text⟩

/-- **The client answers** every request with some order of its full answer. -/
def OpenAIEmbeddingsClient.Answers (client : OpenAIEmbeddingsClient)
    (f : JsString → List JsNumber) : Prop :=
  ∀ earlier args, ∃ data, client.create earlier args = .ok data ∧ data.Perm (answerTo f args.input)

theorem map_index_answerTo (f : JsString → List JsNumber) (input : List JsString) :
    (answerTo f input).map (·.index) = List.range input.length := by
  refine List.ext_getElem (by simp [answerTo]) fun i h₁ h₂ => ?_
  simp [answerTo]

theorem map_embedding_answerTo (f : JsString → List JsNumber) (input : List JsString) :
    (answerTo f input).map (·.embedding) = input.map f := by
  refine List.ext_getElem (by simp [answerTo]) fun i h₁ h₂ => ?_
  simp [answerTo]

/-- A full answer is in order. -/
theorem mergeSort_answerTo (f : JsString → List JsNumber) (input : List JsString) :
    (answerTo f input).mergeSort (fun a b => decide (a.index ≤ b.index)) = answerTo f input := by
  refine List.mergeSort_of_pairwise ?_
  have hlt : ((answerTo f input).map (·.index)).Pairwise (· < ·) := by
    rw [map_index_answerTo]
    exact List.pairwise_lt_range
  exact (List.pairwise_map.1 hlt).imp fun h => decide_eq_true h.le

/-- **Sorted by index, an answer gives the vectors of its batch.** -/
theorem vectorsOf_perm {data : List EmbeddingDatum} {input : List JsString}
    (h : data.Perm (answerTo f input)) : vectorsOf data = input.map f := by
  have hsorts : KeySort.Sorts EmbeddingDatum.index (fun a b => decide (a.index ≤ b.index))
      (answerTo f input) := fun _ _ _ _ => rfl
  have hkeys : ((answerTo f input).map (·.index)).Nodup := by
    rw [map_index_answerTo]
    exact List.nodup_range
  rw [vectorsOf, KeySort.mergeSort_perm_eq hsorts hkeys h, mergeSort_answerTo,
    map_embedding_answerTo]

/-! ## The loop -/

namespace OpenAIEmbedder

variable {e : OpenAIEmbedder} {vectors : List (List JsNumber)} {earlier : List CreateArgs}

/-- The request for a batch. -/
def request (e : OpenAIEmbedder) (batch : List JsString) : CreateArgs :=
  ⟨e.model, batch, e.dimensions⟩

/-- One turn adds the vectors of its batch and makes one request. -/
theorem embedBatch_eq (h : e.client.Answers f) (batch : List JsString) :
    e.embedBatch vectors batch earlier = .ok (vectors ++ batch.map f,
      earlier ++ [e.request batch]) := by
  obtain ⟨data, hcreate, hperm⟩ := h earlier (e.request batch)
  have hvectors : vectorsOf data = batch.map f := vectorsOf_perm hperm
  rw [← hvectors, embedBatch, ← request, hcreate]
  rfl

/-- **The turns together** add the vectors of all batches, with a request for each. -/
theorem foldlM_embedBatch (h : e.client.Answers f) (batches : List (List JsString)) :
    batches.foldlM e.embedBatch vectors earlier =
      .ok (vectors ++ batches.flatten.map f, earlier ++ batches.map e.request) := by
  induction batches generalizing vectors earlier with
  | nil =>
    rw [List.flatten_nil, List.map_nil, List.map_nil, List.append_nil, List.append_nil]
    rfl
  | cons batch batches ih =>
    rw [List.foldlM_cons, List.flatten_cons, List.map_append, List.map_cons, ← List.append_assoc,
      List.append_cons earlier, ← ih]
    change (e.embedBatch vectors batch earlier).bind _ = _
    rw [embedBatch_eq h]
    rfl

/-- **`embed` pairs every text with its vector**, in whatever order each answer comes: the result is
the texts' vectors in order, and the requests made are batches of the texts in order. -/
theorem embed_pairs (h : e.client.Answers f) (texts : List JsString) (earlier : List CreateArgs) :
    ∃ requests, e.embed texts earlier = .ok (texts.map f, earlier ++ requests) ∧
      requests.flatMap (·.input) = texts ∧ ∀ r ∈ requests, r.input.length ≤ e.batchSize := by
  refine ⟨(Table.slices e.batchSize texts).map e.request, ?_, ?_, ?_⟩
  · rw [embed]
    split
    case isTrue hnil =>
      subst hnil
      exact congrArg (fun rs => Except.ok ([], rs)) (List.append_nil earlier).symm
    case isFalse =>
      rw [foldlM_embedBatch h, Table.flatten_slices e.batchSize_pos]
      rfl
  · rw [List.flatMap_map]
    exact List.flatMap_id.trans (Table.flatten_slices e.batchSize_pos texts)
  · intro r hr
    obtain ⟨batch, hbatch, rfl⟩ := List.mem_map.1 hr
    exact Table.length_le_of_mem_slices hbatch

/-- A text's length as its vector. -/
def lengthVector (text : JsString) : List JsNumber := [.ofNat text.length]

/-- A client that answers back to front. -/
def backToFront : OpenAIEmbedder where
  client := ⟨fun _ args => .ok (answerTo lengthVector args.input).reverse⟩
  model := js "m"
  dimensions := 1
  batchSize := 2

/-- Five texts in three batches, each answered back to front. -/
theorem embed_pairs_backToFront : ∃ requests,
    backToFront.embed [js "a", js "bb", js "ccc", js "dddd", js "e"] [] =
      .ok ([[.ofNat 1], [.ofNat 2], [.ofNat 3], [.ofNat 4], [.ofNat 1]], [] ++ requests) ∧
    requests.flatMap (·.input) = [js "a", js "bb", js "ccc", js "dddd", js "e"] ∧
    ∀ r ∈ requests, r.input.length ≤ 2 :=
  embed_pairs (e := backToFront) (f := lengthVector) (fun _ _ => ⟨_, rfl, List.reverse_perm _⟩)
    [js "a", js "bb", js "ccc", js "dddd", js "e"] []

end OpenAIEmbedder
