import Mathlib.Data.List.Forall2
import CodeIndex.Enrichment.Basic

/-!
# The conversation about a file

Whatever a language server replies, and whether it replies at all, the symbols of a file stay the same ones in the
same order and only fields that were empty are filled. The server is asked nothing, or fails to open the file, or is
asked once about each symbol in turn; what it says about one symbol has no effect on another
(`hover_fills_and_isolates`).
-/

namespace CodeIndex

namespace EnrichedSymbol

/-- The same symbol, some of whose empty fields are filled. -/
structure FilledIn (s t : EnrichedSymbol) : Prop where
  frame : t = { s with signature := t.signature, returnType := t.returnType, docstring := t.docstring }
  signature : ∀ x, s.signature = some x → t.signature = some x
  returnType : ∀ x, s.returnType = some x → t.returnType = some x
  docstring : ∀ x, s.docstring = some x → t.docstring = some x

theorem FilledIn.refl (s : EnrichedSymbol) : s.FilledIn s :=
  ⟨rfl, fun _ h => h, fun _ h => h, fun _ h => h⟩

theorem filledIn_withHover (s : EnrichedSymbol) (h : HoverInfo) : s.FilledIn (s.withHover h) where
  frame := rfl
  signature x hx := by rw [withHover, hx, Option.some_or]
  returnType x hx := by rw [withHover, hx, Option.some_or]
  docstring x hx := by rw [withHover, hx, Option.some_or]

/-- What a reply makes of a symbol. -/
def told (s : EnrichedSymbol) : HoverReply → EnrichedSymbol
  | .text t => s.withHover (Hover.parse t)
  | .nothing => s
  | .failed => s

theorem filledIn_told (s : EnrichedSymbol) (reply : HoverReply) : s.FilledIn (s.told reply) := by
  cases reply with
  | text t => exact s.filledIn_withHover _
  | nothing => exact .refl s
  | failed => exact .refl s

end EnrichedSymbol

namespace Hover

open EnrichedSymbol

/-! ## What is asked, and what is replied -/

section Calls

variable (file text : String)

def opening : HoverCall := .openDocument file text.utf8ByteSize

/-- The call about the middle of a symbol's name on its line. -/
def callAbout (s : EnrichedSymbol) : HoverCall :=
  let line := s.symbol.startLine - 1
  .hover file line (columnOf ((Text.lineChars text.toList).toArray.getD line []) s.symbol.name)

/-- All calls before the one about the symbol at a place. -/
def askedBefore (asked : List HoverCall) (symbols : List EnrichedSymbol) (i : Nat) : List HoverCall :=
  (asked ++ [opening file text]) ++ (symbols.map (callAbout file text)).take i

end Calls

/-- The replies to calls that are made one after the other. -/
def replies (h : HoverSource) (asked : List HoverCall) : List HoverCall → List HoverReply
  | [] => []
  | call :: rest => h.reply asked call :: replies h (asked ++ [call]) rest

theorem length_replies (h : HoverSource) (asked calls : List HoverCall) :
    (replies h asked calls).length = calls.length := by
  induction calls generalizing asked with
  | nil => rfl
  | cons call rest ih => rw [replies, List.length_cons, List.length_cons, ih]

theorem getElem?_replies (h : HoverSource) (asked calls : List HoverCall) (i : Nat) :
    (replies h asked calls)[i]? = calls[i]?.map (h.reply (asked ++ calls.take i)) := by
  induction calls generalizing asked i with
  | nil => rfl
  | cons call rest ih =>
    cases i with
    | zero => simp [replies]
    | succ i => simp [replies, ih]

variable {h h' : HoverSource} {file text : String} {asked : List HoverCall} {symbols : List EnrichedSymbol}

/-- Each symbol in turn becomes what the reply to the call about it makes of it. -/
theorem enrichFrom_eq (h : HoverSource) (file text : String) (asked : List HoverCall)
    (symbols : List EnrichedSymbol) :
    enrichFrom h file (Text.lineChars text.toList).toArray asked symbols =
      (symbols.zipWith told (replies h asked (symbols.map (callAbout file text))),
        asked ++ symbols.map (callAbout file text)) := by
  induction symbols generalizing asked with
  | nil => simp [enrichFrom]
  | cons s rest ih =>
    rw [enrichFrom, ih]
    simp only [List.map_cons, replies, List.zipWith_cons_cons, List.append_assoc, List.singleton_append]
    congr 2

theorem enrich_eq (h : HoverSource) (file text : String) (asked : List HoverCall) (symbols : List EnrichedSymbol) :
    enrich h file text asked symbols =
      if h.reply asked (opening file text) = .failed then (symbols, asked ++ [opening file text])
      else
        (symbols.zipWith told (replies h (asked ++ [opening file text]) (symbols.map (callAbout file text))),
          asked ++ [opening file text] ++ symbols.map (callAbout file text) ++ [.closeDocument file]) := by
  unfold enrich opening
  simp only [enrichFrom_eq]

theorem forall₂_zipWith_told {replied : List HoverReply} (hlength : replied.length = symbols.length) :
    List.Forall₂ FilledIn symbols (symbols.zipWith told replied) := by
  induction symbols generalizing replied with
  | nil => exact .nil
  | cons s rest ih =>
    cases replied with
    | nil => cases hlength
    | cons reply replied => exact .cons (s.filledIn_told reply) (ih (Nat.succ.inj hlength))

theorem forall₂_refl (symbols : List EnrichedSymbol) : List.Forall₂ FilledIn symbols symbols :=
  List.forall₂_same.mpr fun s _ => .refl s

/-- The three courses that the conversation about a file can take: its symbols afterwards, and all calls. -/
inductive Conversation (hover : Option HoverSource) (file text : String) (asked : List HoverCall)
    (e : FileExtraction) : List EnrichedSymbol → List HoverCall → Prop where
  | silent : hover = none ∨ e.support.recommendsServer = false ∨ e.symbols = [] →
      Conversation hover file text asked e e.symbols asked
  | refused {h : HoverSource} : hover = some h → e.support.recommendsServer = true → e.symbols ≠ [] →
      h.reply asked (opening file text) = .failed →
      Conversation hover file text asked e e.symbols (asked ++ [opening file text])
  | held {h : HoverSource} : hover = some h → e.support.recommendsServer = true → e.symbols ≠ [] →
      h.reply asked (opening file text) ≠ .failed →
      Conversation hover file text asked e
        (e.symbols.zipWith told
          (replies h (asked ++ [opening file text]) (e.symbols.map (callAbout file text))))
        (asked ++ [opening file text] ++ e.symbols.map (callAbout file text) ++ [.closeDocument file])

/-- Every conversation only fills in. -/
theorem Conversation.filledIn {hover : Option HoverSource} {e : FileExtraction} {calls : List HoverCall}
    (hc : Conversation hover file text asked e symbols calls) : List.Forall₂ FilledIn e.symbols symbols := by
  cases hc with
  | silent => exact forall₂_refl _
  | refused => exact forall₂_refl _
  | held => exact forall₂_zipWith_told (by rw [length_replies, List.length_map])

theorem conversation_enrich (h : HoverSource) (file text : String) (asked : List HoverCall) {e : FileExtraction}
    (hrecommended : e.support.recommendsServer = true) (hsymbols : e.symbols ≠ []) :
    Conversation (some h) file text asked e (enrich h file text asked e.symbols).1
      (enrich h file text asked e.symbols).2 := by
  rw [enrich_eq]
  split
  · next hfailed => exact .refused rfl hrecommended hsymbols hfailed
  · next hopen => exact .held rfl hrecommended hsymbols hopen

/-! ## One reply -/

/-- Servers that reply alike whatever they were asked before, one history apart. -/
def AgreeBut (history : List HoverCall) (h h' : HoverSource) : Prop :=
  ∀ asked call, asked ≠ history → h'.reply asked call = h.reply asked call

theorem AgreeBut.getElem?_replies {i j : Nat} {calls : List HoverCall}
    (hagree : AgreeBut (asked ++ calls.take i) h h') (hi : i < calls.length) (hj : j ≠ i) :
    (replies h' asked calls)[j]? = (replies h asked calls)[j]? := by
  rw [Hover.getElem?_replies, Hover.getElem?_replies]
  cases hcall : calls[j]? with
  | none => rfl
  | some call =>
    obtain ⟨hlt, -⟩ := List.getElem?_eq_some_iff.mp hcall
    have hne : asked ++ calls.take j ≠ asked ++ calls.take i := by
      intro heq
      have := congrArg List.length heq
      simp only [List.length_append, List.length_take] at this
      omega
    rw [Option.map_some, Option.map_some, hagree _ _ hne]

/-- A reply about one symbol changes no other symbol and no call. -/
theorem AgreeBut.enrich {i : Nat} (hagree : AgreeBut (askedBefore file text asked symbols i) h h')
    (hi : i < symbols.length) :
    (enrich h' file text asked symbols).2 = (enrich h file text asked symbols).2 ∧
      ∀ j, j ≠ i → (enrich h' file text asked symbols).1[j]? = (enrich h file text asked symbols).1[j]? := by
  have hopening : h'.reply asked (opening file text) = h.reply asked (opening file text) := by
    refine hagree _ _ fun heq => ?_
    have := congrArg List.length heq
    simp only [askedBefore, List.length_append, List.length_singleton] at this
    omega
  rw [enrich_eq, enrich_eq, hopening]
  split
  · exact ⟨rfl, fun _ _ => rfl⟩
  · refine ⟨rfl, fun j hj => ?_⟩
    rw [List.getElem?_zipWith, List.getElem?_zipWith, hagree.getElem?_replies (by simpa using hi) hj]

/-- A symbol about which the server fails to reply stays as it is. -/
theorem getElem?_enrich_of_failed {i : Nat} {s : EnrichedSymbol} (hs : symbols[i]? = some s)
    (hfailed : h.reply (askedBefore file text asked symbols i) (callAbout file text s) = .failed) :
    (enrich h file text asked symbols).1[i]? = some s := by
  rw [enrich_eq]
  split
  · exact hs
  · unfold askedBefore at hfailed
    rw [List.getElem?_zipWith, getElem?_replies, List.getElem?_map, hs, Option.map_some, Option.map_some, hfailed]
    rfl

end Hover

open Hover

/-! ## Files -/

namespace FileExtraction

/-- An extraction after the server had its say. -/
def withServer (e : FileExtraction) (hover : Option HoverSource) (file text : String) (asked : List HoverCall) :
    FileExtraction × List HoverCall :=
  match hover with
  | some h =>
    if e.support.recommendsServer && !e.symbols.isEmpty then
      ({ e with symbols := (enrich h file text asked e.symbols).1 }, (enrich h file text asked e.symbols).2)
    else (e, asked)
  | none => (e, asked)

theorem extractWithHover_eq (r : Registry) (g : Grammars) (hover : Option HoverSource) (asked : List HoverCall)
    (file language text : String) :
    extractWithHover r g hover asked file language text =
      (extractSource r g file language text).withServer hover file text asked := by
  unfold extractWithHover withServer
  rfl

variable (e : FileExtraction) (file text : String) (asked : List HoverCall)

theorem withServer_eq_symbols (hover : Option HoverSource) :
    (e.withServer hover file text asked).1 =
      { e with symbols := (e.withServer hover file text asked).1.symbols } := by
  unfold withServer
  cases hover with
  | none => rfl
  | some h =>
    dsimp only
    split <;> rfl

theorem conversation_withServer (hover : Option HoverSource) :
    Conversation hover file text asked e (e.withServer hover file text asked).1.symbols
      (e.withServer hover file text asked).2 := by
  unfold withServer
  cases hover with
  | none => exact .silent (.inl rfl)
  | some h =>
    dsimp only
    split
    · next hasked =>
      simp only [Bool.and_eq_true, Bool.not_eq_true', List.isEmpty_eq_false_iff] at hasked
      exact conversation_enrich h file text asked hasked.1 hasked.2
    · next hasked =>
      refine .silent (.inr ?_)
      simpa [Classical.or_iff_not_imp_left] using hasked

variable {h : HoverSource} {i : Nat} {s : EnrichedSymbol} (hs : e.symbols[i]? = some s)
include hs

theorem getElem?_withServer_of_failed
    (hfailed : h.reply (askedBefore file text asked e.symbols i) (callAbout file text s) = .failed) :
    (e.withServer (some h) file text asked).1.symbols[i]? = some s := by
  unfold withServer
  dsimp only
  split
  · exact getElem?_enrich_of_failed hs hfailed
  · exact hs

theorem withServer_of_agreeBut {h' : HoverSource} (hagree : AgreeBut (askedBefore file text asked e.symbols i) h h') :
    (e.withServer (some h') file text asked).2 = (e.withServer (some h) file text asked).2 ∧
      ∀ j, j ≠ i → (e.withServer (some h') file text asked).1.symbols[j]? =
        (e.withServer (some h) file text asked).1.symbols[j]? := by
  unfold withServer
  dsimp only
  split
  · exact hagree.enrich (List.getElem?_eq_some_iff.mp hs).1
  · exact ⟨rfl, fun _ _ => rfl⟩

end FileExtraction

/-- For every text, language and server: the extraction with the server is the one without it but for its symbols,
which are filled in by one of the three courses of the conversation. A symbol about which the server fails stays as it
is, and the others and all calls are what they are with any other reply in the place of the failure. -/
theorem hover_fills_and_isolates (r : Registry) (g : Grammars) (hover : Option HoverSource) (asked : List HoverCall)
    (file language text : String) :
    let e := extractSource r g file language text
    let after := extractWithHover r g hover asked file language text
    after.1 = { e with symbols := after.1.symbols } ∧
      List.Forall₂ EnrichedSymbol.FilledIn e.symbols after.1.symbols ∧
      Conversation hover file text asked e after.1.symbols after.2 ∧
      ∀ h i s, hover = some h → e.symbols[i]? = some s →
        h.reply (askedBefore file text asked e.symbols i) (callAbout file text s) = .failed →
        after.1.symbols[i]? = some s ∧
          ∀ h', AgreeBut (askedBefore file text asked e.symbols i) h h' →
            let after' := extractWithHover r g (some h') asked file language text
            after'.2 = after.2 ∧ ∀ j, j ≠ i → after'.1.symbols[j]? = after.1.symbols[j]? := by
  simp only [FileExtraction.extractWithHover_eq]
  generalize extractSource r g file language text = e
  have hconversation := e.conversation_withServer file text asked hover
  refine ⟨e.withServer_eq_symbols file text asked hover, hconversation.filledIn, hconversation, ?_⟩
  rintro h i s rfl hs hfailed
  exact ⟨e.getElem?_withServer_of_failed file text asked hs hfailed,
    fun h' hagree => e.withServer_of_agreeBut file text asked hs hagree⟩

end CodeIndex
