import Stencil.Proofs.Render.Writes
import Stencil.Proofs.Text.Encoding

/-! # Rendering into a writer that fails

A writer with little room gets the bytes of the rendered text as far as they fit, wherever among
the pieces and inside the bytes of one character that is, and what it says then is reported. The
call that fails is the last one that any writer gets.
-/
namespace Stencil

variable {σ : Type}

def Text.encodeAll (pieces : List String) : List UInt8 :=
  pieces.flatMap fun piece => Text.encode piece.toList

namespace Writer

/-- What a writer was called with, and what it said if it failed. -/
structure Call where
  bytes : List UInt8
  failure : Option String
deriving DecidableEq

/-- A writer whose calls are recorded. -/
def logged (w : Writer σ) : Writer (σ × List Call) :=
  ⟨fun (s, calls) bytes =>
    let (s, failure) := w.write s bytes
    ((s, calls ++ [⟨bytes, failure⟩]), failure)⟩

theorem write_limited (limit : Nat) (taken bytes : List UInt8) :
    (limited limit).write taken bytes = (taken ++ bytes.take (limit - taken.length),
      if bytes.length ≤ limit - taken.length then none else some fullMessage) := rfl

theorem write_logged (w : Writer σ) (s : σ) (calls : List Call) (bytes : List UInt8) :
    w.logged.write (s, calls) bytes =
      (((w.write s bytes).1, calls ++ [⟨bytes, (w.write s bytes).2⟩]), (w.write s bytes).2) := rfl

end Writer

namespace Sink

/-- A failure of the writer is held, and ends the writing. -/
theorem writeAll_encoding_cons (w : Writer σ) (piece : String) (rest : List String)
    (held : Held σ) :
    (encoding w).writeAll (piece :: rest) held =
      match w.write held.writer (Text.encode piece.toList) with
      | (s, none) => (encoding w).writeAll rest ⟨s, held.failure⟩
      | (s, some message) => (⟨s, some message⟩, false) := by
  rw [writeAll]
  dsimp only [encoding]
  rcases w.write held.writer (Text.encode piece.toList) with ⟨s, _ | message⟩ <;> rfl

/-- A writer with room takes pieces as if they were one: all of them, or the part that fits. -/
theorem writeAll_limited (limit : Nat) (pieces : List String) (taken : List UInt8)
    (failure : Option String) :
    (encoding (.limited limit)).writeAll pieces ⟨taken, failure⟩ =
      if (Text.encodeAll pieces).length ≤ limit - taken.length then
        (⟨taken ++ Text.encodeAll pieces, failure⟩, true)
      else
        (⟨taken ++ (Text.encodeAll pieces).take (limit - taken.length),
          some Writer.fullMessage⟩, false) := by
  induction pieces generalizing taken with
  | nil => simp [writeAll, Text.encodeAll]
  | cons piece rest ih =>
    have hcons : Text.encodeAll (piece :: rest) =
        Text.encode piece.toList ++ Text.encodeAll rest := List.flatMap_cons
    rw [writeAll_encoding_cons, Writer.write_limited, hcons]
    by_cases hp : (Text.encode piece.toList).length ≤ limit - taken.length
    · -- the piece is taken whole, and what is left of the room is left for the others
      rw [if_pos hp, List.take_of_length_le hp]
      dsimp only
      rw [ih, List.length_append, List.length_append, List.append_assoc]
      by_cases hr : (Text.encodeAll rest).length ≤
          limit - (taken.length + (Text.encode piece.toList).length)
      · rw [if_pos hr, if_pos (by omega)]
      · rw [if_neg hr, if_neg (by omega), List.take_append, List.take_of_length_le hp,
          List.append_assoc, Nat.sub_sub]
    · rw [if_neg hp, if_neg (by rw [List.length_append]; omega),
        List.take_append_of_le_length (by omega)]

/-- Recording the calls of a writer changes nothing, and none of them follows one that failed. -/
theorem writeAll_logged (w : Writer σ) (pieces : List String) (s : σ) (calls : List Writer.Call)
    (failure : Option String) :
    ∃ more : List Writer.Call, (∀ call ∈ more.dropLast, call.failure = none) ∧
      (encoding w.logged).writeAll pieces ⟨(s, calls), failure⟩ =
        (⟨(((encoding w).writeAll pieces ⟨s, failure⟩).1.writer, calls ++ more),
          ((encoding w).writeAll pieces ⟨s, failure⟩).1.failure⟩,
          ((encoding w).writeAll pieces ⟨s, failure⟩).2) := by
  induction pieces generalizing s calls with
  | nil => exact ⟨[], by simp, by simp [writeAll]⟩
  | cons piece rest ih =>
    rw [writeAll_encoding_cons, writeAll_encoding_cons, Writer.write_logged]
    rcases w.write s (Text.encode piece.toList) with ⟨s', _ | message⟩
    · obtain ⟨more, hmore, heq⟩ := ih s' (calls ++ [⟨Text.encode piece.toList, none⟩])
      refine ⟨⟨Text.encode piece.toList, none⟩ :: more, ?_, ?_⟩
      · intro call hc
        cases more with
        | nil => simp at hc
        | cons next more =>
          rcases List.mem_cons.mp hc with rfl | hc
          · rfl
          · exact hmore call hc
      · simpa only [List.append_assoc, List.singleton_append] using heq
    · exact ⟨[⟨Text.encode piece.toList, some message⟩], by simp, rfl⟩

end Sink

namespace Environment

variable (env : Environment) (t : Template) (chain : List Value)

/-- The pieces of the rendered text are handed to a writer, until it fails. -/
theorem exists_pieces_renderTo :
    ∃ pieces : List String, String.join pieces = env.render t chain ∧
      ∀ (σ : Type) (w : Writer σ) (start : σ), env.renderTo w t chain start =
        ((Sink.encoding w).writeAll pieces ⟨start, none⟩).1.outcome
          ((Sink.encoding w).writeAll pieces ⟨start, none⟩).2 := by
  obtain ⟨pieces, hj, hw⟩ := Render.exists_pieces env t.nodes (.ofChain chain)
  refine ⟨pieces, hj.trans (env.render_eq_meaning t chain).symm, ?_⟩
  intro σ w start
  rw [renderTo, Render.run, hw]

/-- Recording the calls changes neither what a writer has in the end nor what is reported, and
only the last call may have failed. -/
theorem renderTo_logged (w : Writer σ) (start : σ) :
    ((env.renderTo w.logged t chain (start, [])).1.1, (env.renderTo w.logged t chain (start, [])).2)
        = env.renderTo w t chain start ∧
      ∀ call ∈ (env.renderTo w.logged t chain (start, [])).1.2.dropLast, call.failure = none := by
  obtain ⟨pieces, -, hw⟩ := exists_pieces_renderTo env t chain
  obtain ⟨more, hmore, heq⟩ := Sink.writeAll_logged w pieces start [] none
  rw [hw, hw, heq]
  exact ⟨rfl, hmore⟩

theorem renderLimited_eq (limit : Nat) :
    env.renderLimited t chain limit =
      let bytes := Text.encode (env.render t chain).toList
      (bytes.take limit, if bytes.length ≤ limit then .ok ()
        else .error ((Error.new .writeFailure "I/O error during rendering").causedBy
          Writer.fullMessage)) := by
  obtain ⟨pieces, hj, hw⟩ := exists_pieces_renderTo env t chain
  rw [renderLimited, hw, Sink.writeAll_limited, ← hj, Text.encode_join]
  dsimp only
  rw [← Text.encodeAll, List.length_nil, Nat.sub_zero]
  by_cases hl : (Text.encodeAll pieces).length ≤ limit
  · rw [if_pos hl, if_pos hl, List.take_of_length_le hl]
    rfl
  · rw [if_neg hl, if_neg hl]
    rfl

def renderedBytes : List UInt8 := (env.render t chain).toUTF8.data.toList

/-- A writer with room for `limit` bytes ends up with the bytes of the rendered text as far as they
fit. All is well exactly if that is all of them, and what the writer says is reported otherwise.
Nothing is written after the first call that fails. -/
theorem renderLimited_takes_what_fits (limit : Nat) :
    env.renderLimited t chain limit =
      ((env.renderedBytes t chain).take (min limit (env.renderedBytes t chain).length),
        if (env.renderedBytes t chain).length ≤ limit then .ok ()
        else .error ⟨.writeFailure, some "I/O error during rendering", none, none,
          some Writer.fullMessage⟩) ∧
    ((env.renderTo (Writer.limited limit).logged t chain ([], [])).1.1,
        (env.renderTo (Writer.limited limit).logged t chain ([], [])).2) =
      env.renderLimited t chain limit ∧
    ∀ call ∈ (env.renderTo (Writer.limited limit).logged t chain ([], [])).1.2.dropLast,
      call.failure = none := by
  have hb : env.renderedBytes t chain = Text.encode (env.render t chain).toList :=
    (Text.encode_toList _).symm
  refine ⟨?_, env.renderTo_logged t chain (Writer.limited limit) []⟩
  rw [env.renderLimited_eq t chain limit, hb]
  dsimp only
  rw [← List.take_eq_take_min]
  rfl

/-- The room ends inside the two bytes of a character: one of them is taken, and the text behind
the variable is not written any more. -/
theorem renderLimited_takes_what_fits_of_character :
    let t : Template := ⟨none, "", [.text "a", .variable ⟨".", []⟩ false, .text "z"]⟩
    let logged := empty.renderTo (Writer.limited 6).logged t [.text "<é"] ([], [])
    empty.renderLimited t [.text "<é"] 6 =
      ([97, 38, 108, 116, 59, 195], .error ⟨.writeFailure, some "I/O error during rendering", none,
        none, some "limit reached"⟩) ∧
    logged.1.2 = [⟨[97], none⟩, ⟨[38, 108, 116, 59], none⟩, ⟨[195, 169], some "limit reached"⟩] ∧
    ∀ call ∈ logged.1.2.dropLast, call.failure = none := by
  intro t logged
  have h := renderLimited_takes_what_fits empty t [.text "<é"] 6
  exact ⟨h.1.trans rfl, rfl, h.2.2⟩

end Environment

end Stencil
