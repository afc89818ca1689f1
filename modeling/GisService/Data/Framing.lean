import GisService.Data.ByteString

/-! Streams of messages that say themselves where they end. How a message is
read may depend on a context that the reader knows, such as the question that
it answers. -/
namespace Framing

open ByteString

variable {C M : Type}

/-- Read one message in each context, one after the other. -/
def readEach (read : C → Bytes → Option (M × Bytes)) : List C → Bytes → Option (List M × Bytes)
  | [], stream => some ([], stream)
  | context :: contexts, stream => do
      let (message, stream) ← read context stream
      let (messages, stream) ← readEach read contexts stream
      return (message :: messages, stream)

/-- If each text reads back as its message whatever follows it, the texts in a
row read back as the messages in a row. -/
theorem readEach_append {read : C → Bytes → Option (M × Bytes)} (exchanges : List (C × M × Bytes))
    (h : ∀ x ∈ exchanges, ∀ rest, read x.1 (x.2.2 ++ rest) = some (x.2.1, rest)) (rest : Bytes) :
    readEach read (exchanges.map (·.1)) (exchanges.flatMap (·.2.2) ++ rest) =
      some (exchanges.map (·.2.1), rest) := by
  induction exchanges with
  | nil => rfl
  | cons x exchanges ih =>
      have hHead := h x (by simp)
      have hTail := ih fun y hy => h y (List.mem_cons_of_mem _ hy)
      rw [List.flatMap_cons, List.append_assoc]
      simp [readEach, hHead, hTail]

end Framing
