import Mathlib.Data.List.Basic
import SparqlComposer.Layout
import SparqlComposer.Proofs.Span.Restore
import SparqlComposer.Proofs.Text.Word

/-!
# Pieces of a layout

What is laid out are words, marks and whole spans, of which only the first two are tokens of the
hidden text: there a span is a bracket, a word and a bracket again. Laying out these three as
tokens comes to the same as laying out the span as a single piece, so that a layout can be told in
terms of the segments of a text.
-/

namespace SparqlComposer.Layout

/-- A token outside the spans, or a whole span. -/
inductive Piece where
  | token (t : Token)
  | span (s : Span)

/-- Pieces, each with whether blanks stand in front of it. -/
abbrev Pieces := List (Bool × Piece)

namespace Piece

def segments : Piece → List Segment
  | token t => t.text.map .plain
  | span s => [.span s]

/-- The first token of the piece when its span is hidden. -/
def first : Piece → Token
  | token t => t
  | span _ => .mark '<'

/-- The last token of the piece when its span is hidden. -/
def last : Piece → Token
  | token t => t
  | span _ => .mark '>'

end Piece

namespace Pieces

def behindBlank : Pieces → Pieces
  | [] => []
  | (_, i) :: v => (true, i) :: v

/-- Puts a character in front of a word that stands first, or makes a word of it. -/
def addToWord (c : Char) : Pieces → Pieces
  | (false, .token (.word t)) :: v => (false, .token (.word (c :: t))) :: v
  | v => (false, .token (.word [c])) :: v

def ofTokens : List Token → Pieces
  | [] => []
  | t :: ts => if t.isGap then behindBlank (ofTokens ts) else (false, .token t) :: ofTokens ts

def ofSegments : List Segment → Pieces
  | [] => []
  | .span s :: ss => (false, .span s) :: ofSegments ss
  | .plain c :: ss =>
      if isBlank c then behindBlank (ofSegments ss)
      else if isWord c then addToWord c (ofSegments ss)
      else (false, .token (.mark c)) :: ofSegments ss

def hide : Pieces → Pieces
  | [] => []
  | (b, .token t) :: v => (b, .token t) :: hide v
  | (b, .span s) :: v => (b, .token (.mark '<')) ::
      (false, .token (.word (Md5.ofText s.text))) :: (false, .token (.mark '>')) :: hide v

end Pieces

namespace Place

/-- The place behind blanks, if there are any. -/
def behind (p : Place) (b : Bool) : Place := if b then p.afterBlank else p

def lead (p : Place) (t : Token) : Text :=
  ((p.gapBefore t).map Gap.text).getD [] ++ indentation (p.depthAt t) (p.gapBefore t)

theorem written_eq (p : Place) (t : Token) : p.written t = p.lead t ++ t.text := rfl

/-- Blanks change nothing about the place behind the next token. -/
@[simp] theorem after_behind (p : Place) (b : Bool) (t : Token) :
    (p.behind b).after t = p.after t := by
  cases b <;> rfl

theorem afterBlank_afterBlank (p : Place) : p.afterBlank.afterBlank = p.afterBlank := by
  obtain ⟨last, gap, depth⟩ := p
  cases gap with
  | some g => rfl
  | none =>
      simp [afterBlank]

end Place

/-- The pieces laid out from a place on, as segments. -/
def laid (p : Place) : Pieces → List Segment
  | [] => [.plain '\n']
  | (b, i) :: v => ((p.behind b).lead i.first).map .plain ++ i.segments ++ laid (p.after i.last) v

theorem laid_behindBlank (p : Place) (v : Pieces) :
    laid p v.behindBlank = laid p.afterBlank v := by
  cases v with
  | nil => rfl
  | cons head v =>
      obtain ⟨b, i⟩ := head
      have hbehind : p.afterBlank.behind b = p.afterBlank := by
        cases b with
        | false => rfl
        | true => exact p.afterBlank_afterBlank
      have hafter : p.afterBlank.after i.last = p.after i.last := rfl
      rw [Pieces.behindBlank, laid, laid, hbehind, hafter]
      rfl

theorem flatMap_text_plain (t : Text) : (t.map Segment.plain).flatMap Segment.text = t := by
  induction t with
  | nil => rfl
  | cons c t ih => rw [List.map_cons, List.flatMap_cons, ih]; rfl

/-! ## Tokens -/

theorem lines_eq (p : Place) (ts : List Token) :
    lines p ts = (laid p (Pieces.ofTokens ts)).flatMap Segment.text := by
  induction ts generalizing p with
  | nil => rfl
  | cons t ts ih =>
      rw [lines, Pieces.ofTokens]
      split
      · rw [laid_behindBlank, ih]
      · rw [laid, List.flatMap_append, List.flatMap_append, flatMap_text_plain, Piece.segments,
          flatMap_text_plain, ih, Place.written_eq]
        rfl

theorem ofTokens_tokens (t : Text) :
    Pieces.ofTokens (tokens t) = Pieces.ofSegments (t.map .plain) := by
  induction t with
  | nil => rfl
  | cons c cs ih =>
      rw [List.map_cons, Pieces.ofSegments, ← ih, tokens]
      by_cases hword : isWord c
      · rw [if_pos hword, if_neg (not_isBlank_of_isWord hword), if_pos hword]
        -- A word goes on exactly when the next token is a word.
        cases htokens : tokens cs with
        | nil => rfl
        | cons t ts =>
            cases t with
            | word w => rfl
            | mark m =>
                rw [Pieces.ofTokens, Pieces.ofTokens]
                by_cases hm : isBlank m
                · have hgap : (Token.mark m).isGap := hm
                  rw [if_pos hgap]
                  cases Pieces.ofTokens ts <;> rfl
                · have hgap : ¬ (Token.mark m).isGap := hm
                  rw [if_neg hgap]
                  rfl
      · by_cases hblank : isBlank c
        · have hgap : (Token.mark c).isGap := hblank
          rw [if_neg hword, if_pos hblank, Pieces.ofTokens, if_pos hgap]
        · have hgap : ¬ (Token.mark c).isGap := hblank
          rw [if_neg hword, if_neg hblank, if_neg hword, Pieces.ofTokens, if_neg hgap]

/-! ## Hidden spans -/

theorem hide_behindBlank (v : Pieces) : v.behindBlank.hide = v.hide.behindBlank := by
  cases v with
  | nil => rfl
  | cons head v =>
      obtain ⟨b, i⟩ := head
      cases i <;> rfl

theorem hide_addToWord (c : Char) (v : Pieces) :
    (v.addToWord c).hide = v.hide.addToWord c := by
  cases v with
  | nil => rfl
  | cons head v =>
      obtain ⟨b, i⟩ := head
      cases b with
      | true => cases i <;> rfl
      | false =>
          cases i with
          | span s => rfl
          | token t => cases t <;> rfl

/-- A word stands first, with no blanks in front. -/
def Pieces.StartsInWord : Pieces → Prop
  | (false, .token (.word _)) :: _ => True
  | _ => False

theorem addToWord_eq {v : Pieces} (h : ¬ v.StartsInWord) (c : Char) :
    v.addToWord c = (false, .token (.word [c])) :: v := by
  unfold Pieces.addToWord
  split
  · exact absurd trivial h
  · rfl

theorem ofSegments_mark {c : Char} (hblank : ¬ isBlank c) (hword : ¬ isWord c)
    (ss : List Segment) :
    Pieces.ofSegments (.plain c :: ss) = (false, .token (.mark c)) :: Pieces.ofSegments ss := by
  rw [Pieces.ofSegments, if_neg hblank, if_neg hword]

theorem ofSegments_word {w : Text} (hne : w ≠ []) (hword : ∀ c ∈ w, isWord c) {ss : List Segment}
    (hss : ¬ (Pieces.ofSegments ss).StartsInWord) :
    Pieces.ofSegments (w.map .plain ++ ss) = (false, .token (.word w)) :: Pieces.ofSegments ss := by
  induction w with
  | nil => exact absurd rfl hne
  | cons c w ih =>
      have hc : isWord c := hword c List.mem_cons_self
      rw [List.map_cons, List.cons_append, Pieces.ofSegments, if_neg (not_isBlank_of_isWord hc),
        if_pos hc]
      cases w with
      | nil => exact addToWord_eq hss c
      | cons c' w =>
          rw [ih (List.cons_ne_nil c' w) fun d hd ↦ hword d (List.mem_cons_of_mem c hd)]
          rfl

theorem ofSegments_hidden (ss : List Segment) :
    Pieces.ofSegments ((ss.flatMap Segment.hidden).map .plain) = (Pieces.ofSegments ss).hide := by
  induction ss with
  | nil => rfl
  | cons seg ss ih =>
      cases seg with
      | plain c =>
          have hcons : ((Segment.plain c :: ss).flatMap Segment.hidden).map Segment.plain =
              .plain c :: (ss.flatMap Segment.hidden).map .plain := rfl
          rw [hcons, Pieces.ofSegments, Pieces.ofSegments, ih]
          split
          · exact (hide_behindBlank _).symm
          · split
            · exact (hide_addToWord c _).symm
            · rfl
      | span s =>
          have hcons : ((Segment.span s :: ss).flatMap Segment.hidden).map Segment.plain =
              .plain '<' :: ((Md5.ofText s.text).map .plain ++
                .plain '>' :: (ss.flatMap Segment.hidden).map .plain) := by
            simp [Segment.hidden, Span.key]
          have hclose : Pieces.ofSegments (.plain '>' :: (ss.flatMap Segment.hidden).map .plain) =
              (false, .token (.mark '>')) :: (Pieces.ofSegments ss).hide := by
            rw [ofSegments_mark (by decide) (by decide), ih]
          have hdigits : Md5.ofText s.text ≠ [] := by
            intro hnil
            have hlength : (Md5.ofText s.text).length = 32 := Md5.length_hexDigest _
            rw [hnil] at hlength
            cases hlength
          have hstart : ¬ (Pieces.ofSegments
              (.plain '>' :: (ss.flatMap Segment.hidden).map .plain)).StartsInWord := by
            rw [hclose]
            exact id
          have hword := ofSegments_word hdigits (fun _ ↦ Md5.isWord_of_mem_ofText) hstart
          rw [hcons, ofSegments_mark (by decide) (by decide), hword, hclose]
          rfl

/-- Nothing stands between tokens of which neither asks for it. -/
theorem lead_eq_nil {p : Place} {t : Token} (hgap : p.gap = none)
    (hline : startsLine t = false) (hmark : isSpaced t = false)
    (hselect : t ≠ .word "SELECT".toList) (hunion : t ≠ .word "UNION".toList) :
    p.lead t = [] := by
  have hnone : p.gapBefore t = none := by
    simp only [Place.gapBefore, hgap, hline, hmark, hselect, hunion, decide_false, Bool.false_and,
      Bool.and_false, Bool.or_self, Bool.false_eq_true, if_false, ite_self]
  rw [Place.lead, hnone]
  rfl

theorem lead_digits (p : Place) (t : Text) :
    (p.after (.mark '<')).lead (.word (Md5.ofText t)) = [] := by
  have hlength : (Md5.ofText t).length = 32 := Md5.length_hexDigest _
  have hne : ∀ w : Text, w.length ≠ 32 → Md5.ofText t ≠ w := by
    rintro w hw rfl
    exact hw hlength
  have hline : ∀ w ∈ lineWords, w.length ≠ 32 := by decide
  refine lead_eq_nil rfl ?_ rfl ?_ ?_
  · rw [startsLine, Bool.eq_false_iff, ne_eq, List.contains_iff_mem]
    exact fun hmem ↦ hline _ hmem hlength
  · exact fun heq ↦ hne _ (by decide) (Token.word.inj heq)
  · exact fun heq ↦ hne _ (by decide) (Token.word.inj heq)

/-- A span that is hidden is laid out like a span. -/
theorem laid_hide (p : Place) (v : Pieces) :
    (laid p v.hide).flatMap Segment.text = (laid p v).flatMap Segment.hidden := by
  have hplain : ∀ t : Text, (t.map Segment.plain).flatMap Segment.hidden =
      (t.map Segment.plain).flatMap Segment.text := by
    intro t
    apply List.flatMap_congr
    intro seg hseg
    obtain ⟨c, -, rfl⟩ := List.mem_map.mp hseg
    rfl
  induction v generalizing p with
  | nil => rfl
  | cons head v ih =>
      obtain ⟨b, i⟩ := head
      cases i with
      | token t =>
          rw [Pieces.hide, laid, laid, List.flatMap_append, List.flatMap_append,
            List.flatMap_append, List.flatMap_append, ih, hplain, Piece.segments, hplain]
      | span s =>
          have hclose : ((p.after (.mark '<')).after (.word (Md5.ofText s.text))).lead (.mark '>') =
              [] := lead_eq_nil rfl rfl rfl (by decide) (by decide)
          have hplace : ((p.after (.mark '<')).after (.word (Md5.ofText s.text))).after (.mark '>') =
              p.after (.mark '>') := rfl
          have hbehind (p : Place) : p.behind false = p := rfl
          simp only [Pieces.hide, laid, Piece.segments, Piece.first, Piece.last, Token.text, hbehind,
            lead_digits, hclose, hplace, List.flatMap_append, flatMap_text_plain, hplain, ih,
            List.map_nil, List.nil_append]
          simp [Segment.hidden, Span.key]

/-- A text is laid out by its segments, of which the spans are hidden. -/
theorem hiddenLines_eq (t : Text) : hiddenLines t =
    (laid Place.start (Pieces.ofSegments (segments t))).flatMap Segment.hidden := by
  rw [hiddenLines, lines_eq, ofTokens_tokens, escaped, ofSegments_hidden, laid_hide]

end SparqlComposer.Layout
