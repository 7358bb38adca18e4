import Mathlib.Logic.ExistsUnique
import Heightfield.Proofs.Json.Line
import Heightfield.Service.Lines
/-!
# Serving line by line

A text is cut at its newlines, in one way (`exists_isCut`, `IsCut.unique`).  Every line is answered by itself
(`answers_line`), so the answers to a text are those to its requests, the lines that are not blank, in order
(`IsCut.answers_eq`).  An answer has no newline, so it is one line of the output (`serve_answered`).
-/
namespace Heightfield
namespace Service

/-- The lines one after the other, each with its newline. -/
def ended (ls : List (List Char)) : List Char := ls.flatMap (· ++ ['\n'])

theorem ended_cons (l : List Char) (ls : List (List Char)) : ended (l :: ls) = l ++ '\n' :: ended ls := by
  rw [ended, List.flatMap_cons, List.append_assoc]
  rfl

theorem ended_append (ls ls' : List (List Char)) : ended (ls ++ ls') = ended ls ++ ended ls' := List.flatMap_append

/-! ## Lines of a text -/

theorem lines_append {l : List Char} (hl : '\n' ∉ l) (s : List Char) : lines (l ++ '\n' :: s) = l :: lines s := by
  induction l with
  | nil => rw [List.nil_append, lines, if_pos rfl]
  | cons c l ih =>
    obtain ⟨hc, hl'⟩ := not_or.1 (mt List.mem_cons.2 hl)
    rw [List.cons_append, lines, if_neg (Ne.symm hc), ih hl']

theorem lines_of_not_mem : ∀ {l : List Char}, '\n' ∉ l → l ≠ [] → lines l = [l]
  | [], _, hne => absurd rfl hne
  | [c], hl, _ => by
    have hc : c ≠ '\n' := fun h => hl (h ▸ List.mem_singleton_self c)
    rw [lines, if_neg hc]
    rfl
  | c :: d :: l, hl, _ => by
    obtain ⟨hc, hl'⟩ := not_or.1 (mt List.mem_cons.2 hl)
    rw [lines, if_neg (Ne.symm hc), lines_of_not_mem hl' (List.cons_ne_nil d l)]

theorem lines_ended : ∀ {ls : List (List Char)}, (∀ l ∈ ls, '\n' ∉ l) → lines (ended ls) = ls
  | [], _ => rfl
  | l :: ls, h => by
    obtain ⟨hl, hls⟩ := List.forall_mem_cons.1 h
    rw [ended_cons, lines_append hl, lines_ended hls]

/-- The lines of a text, and what stands behind its last newline. -/
structure IsCut (text : List Char) (ls : List (List Char)) (rest : List Char) : Prop where
  text_eq : text = ended ls ++ rest
  whole : ∀ l ∈ ls, '\n' ∉ l
  unended : '\n' ∉ rest

namespace IsCut

variable {text after rest rest' l : List Char} {ls ls' : List (List Char)}

theorem of_not_mem (h : '\n' ∉ rest) : IsCut rest [] rest := ⟨rfl, nofun, h⟩

theorem cons (hl : '\n' ∉ l) (h : IsCut text ls rest) : IsCut (l ++ '\n' :: text) (l :: ls) rest where
  text_eq := by rw [ended_cons, h.text_eq, List.append_assoc, List.cons_append]
  whole := List.forall_mem_cons.2 ⟨hl, h.whole⟩
  unended := h.unended

theorem append (h : IsCut text ls []) (h' : IsCut after ls' rest) : IsCut (text ++ after) (ls ++ ls') rest where
  text_eq := by rw [h.text_eq, h'.text_eq, ended_append, List.append_nil, List.append_assoc]
  whole := List.forall_mem_append.2 ⟨h.whole, h'.whole⟩
  unended := h'.unended

theorem unique : ∀ {text ls ls'}, IsCut text ls rest → IsCut text ls' rest' → ls = ls' ∧ rest = rest'
  | _, [], [], h, h' => ⟨rfl, h.text_eq.symm.trans h'.text_eq⟩
  | _, [], l' :: ls', h, h' => by
    have hrest : rest = ended (l' :: ls') ++ rest' := h.text_eq.symm.trans h'.text_eq
    exact absurd (by simp [hrest, ended_cons]) h.unended
  | _, l :: ls, [], h, h' => by
    have hrest : rest' = ended (l :: ls) ++ rest := h'.text_eq.symm.trans h.text_eq
    exact absurd (by simp [hrest, ended_cons]) h'.unended
  | _, l :: ls, l' :: ls', h, h' => by
    obtain ⟨hl, hls⟩ := List.forall_mem_cons.1 h.whole
    obtain ⟨hl', hls'⟩ := List.forall_mem_cons.1 h'.whole
    have hsame : l ++ '\n' :: (ended ls ++ rest) = l' ++ '\n' :: (ended ls' ++ rest') := by
      simpa [ended_cons] using h.text_eq.symm.trans h'.text_eq
    -- both texts begin with the same line
    obtain ⟨rfl, -⟩ : l = l' ∧ _ := by
      have hlines := congrArg lines hsame
      rwa [lines_append hl, lines_append hl', List.cons.injEq] at hlines
    have htail : ended ls ++ rest = ended ls' ++ rest' := List.cons.inj (List.append_cancel_left hsame) |>.2
    obtain ⟨rfl, hrest⟩ := unique ⟨rfl, hls, h.unended⟩ ⟨htail, hls', h'.unended⟩
    exact ⟨rfl, hrest⟩

theorem rest_eq_nil (h : IsCut text ls rest) (hend : ∀ c ∈ text.getLast?, c = '\n') : rest = [] := by
  by_cases hrest : rest = []
  · exact hrest
  · have hlast : rest.getLast hrest ∈ text.getLast? := by
      rw [h.text_eq, List.getLast?_append, List.getLast?_eq_some_getLast hrest]
      rfl
    exact absurd (hend _ hlast ▸ List.getLast_mem hrest) h.unended

end IsCut

theorem exists_isCut : ∀ text : List Char, ∃ ls rest, IsCut text ls rest
  | [] => ⟨[], [], .of_not_mem List.not_mem_nil⟩
  | c :: text => by
    obtain ⟨ls, rest, h⟩ := exists_isCut text
    by_cases hc : c = '\n'
    · subst hc
      exact ⟨[] :: ls, rest, h.cons List.not_mem_nil⟩
    · cases ls with
      | nil =>
        have htext : text = rest := h.text_eq
        exact ⟨[], c :: text, .of_not_mem (List.not_mem_cons_of_ne_of_not_mem (Ne.symm hc) (htext ▸ h.unended))⟩
      | cons l ls =>
        obtain ⟨hl, hls⟩ := List.forall_mem_cons.1 h.whole
        have hcut : IsCut (ended ls ++ rest) ls rest := ⟨rfl, hls, h.unended⟩
        have htext : c :: text = (c :: l) ++ '\n' :: (ended ls ++ rest) := by
          rw [h.text_eq, ended_cons, List.append_assoc, List.cons_append, List.cons_append]
        rw [htext]
        exact ⟨(c :: l) :: ls, rest, hcut.cons (List.not_mem_cons_of_ne_of_not_mem (Ne.symm hc) hl)⟩

/-! ## Requests and answers -/

/-- The lines that are not blank, without the blanks at their ends. -/
def requests (ls : List (List Char)) : List (List Char) := (ls.map trim).filter fun r => !r.isEmpty

theorem requests_blank : requests [[]] = [] := by decide

theorem requests_append (ls ls' : List (List Char)) : requests (ls ++ ls') = requests ls ++ requests ls' := by
  rw [requests, List.map_append, List.filter_append]
  rfl

/-- The line that answers a request. -/
def response (settings : Settings) (request : List Char) : List Char := (answer settings request).write

variable (settings : Settings)

theorem toList_answerLine? (l : List Char) :
    (answerLine? settings l).toList = (requests [l]).map (answer settings) := by
  unfold answerLine? requests
  by_cases hblank : (trim l).isEmpty = true
  · simp [hblank]
  · simp [hblank]

/-- **A line is answered by itself.** -/
theorem answers_line {l : List Char} (hl : '\n' ∉ l) (s : List Char) :
    answers settings (l ++ '\n' :: s) = (answerLine? settings l).toList ++ answers settings s := by
  rw [answers, lines_append hl, List.filterMap_cons]
  cases answerLine? settings l <;> rfl

theorem answers_of_not_mem {rest : List Char} (h : '\n' ∉ rest) :
    answers settings rest = (answerLine? settings rest).toList := by
  by_cases hrest : rest = []
  · subst hrest
    rfl
  · rw [answers, lines_of_not_mem h hrest, List.filterMap_cons]
    cases answerLine? settings rest <;> rfl

/-- **The answers to a text are those to its requests**, in order. -/
theorem IsCut.answers_eq {text rest : List Char} {ls : List (List Char)} (h : IsCut text ls rest) :
    answers settings text = (requests (ls ++ [rest])).map (answer settings) := by
  obtain ⟨rfl, hwhole, hunended⟩ := h
  induction ls with
  | nil => exact (answers_of_not_mem settings hunended).trans (toList_answerLine? settings rest)
  | cons l ls ih =>
    obtain ⟨hl, hls⟩ := List.forall_mem_cons.1 hwhole
    rw [ended_cons, List.append_assoc, List.cons_append, answers_line settings hl, ih hls, toList_answerLine?,
      ← List.map_append, ← requests_append]
    rfl

theorem serve_eq (text : List Char) : serve settings text = ended ((answers settings text).map Json.write) := by
  rw [serve, ended, List.flatMap_map]

theorem IsCut.serve_eq {text rest : List Char} {ls : List (List Char)} (h : IsCut text ls rest) :
    serve settings text = ended ((requests (ls ++ [rest])).map (response settings)) := by
  rw [Service.serve_eq, h.answers_eq, List.map_map]
  rfl

theorem plain_response (request : List Char) : Plain (response settings request) := Json.plain_write _

/-- **What is served for whole lines stays**, whatever comes after them. -/
theorem serve_append {text : List Char} (hend : ∀ c ∈ text.getLast?, c = '\n') (after : List Char) :
    serve settings (text ++ after) = serve settings text ++ serve settings after := by
  obtain ⟨ls, rest, h⟩ := exists_isCut text
  obtain ⟨ls', rest', h'⟩ := exists_isCut after
  obtain rfl := h.rest_eq_nil hend
  rw [(h.append h').serve_eq, h.serve_eq, h'.serve_eq, List.append_assoc, requests_append, requests_append ls,
    requests_blank, List.append_nil, List.map_append, ended_append]

theorem serve_line {line : List Char} (hline : '\n' ∉ line) :
    serve settings (line ++ ['\n']) = ended ((requests [line]).map (response settings)) := by
  have hcut : IsCut (line ++ ['\n']) [line] [] := (IsCut.of_not_mem List.not_mem_nil).cons hline
  rw [hcut.serve_eq, requests_append, requests_blank, List.append_nil]

/-- Every request of a text is answered on a line of its own, whatever the other lines are. -/
structure Answered (text : List Char) (ls : List (List Char)) (rest : List Char) : Prop where
  cut : IsCut text ls rest
  output_eq : serve settings text = ended ((requests (ls ++ [rest])).map (response settings))
  lines_eq : lines (serve settings text) = (requests (ls ++ [rest])).map (response settings)
  /-- In particular no newline stands in an answer. -/
  plain : ∀ r ∈ requests (ls ++ [rest]), Plain (response settings r)
  append : (∀ c ∈ text.getLast?, c = '\n') → ∀ after,
    serve settings (text ++ after) = serve settings text ++ serve settings after
  between : (∀ c ∈ text.getLast?, c = '\n') → ∀ line after, '\n' ∉ line →
    serve settings (text ++ (line ++ '\n' :: after)) =
      serve settings text ++ (ended ((requests [line]).map (response settings)) ++ serve settings after)

/-- **The requests of every text are answered line by line.** -/
theorem serve_answered (text : List Char) :
    ∃! cut : List (List Char) × List Char, Answered settings text cut.1 cut.2 := by
  obtain ⟨ls, rest, h⟩ := exists_isCut text
  refine ⟨(ls, rest), ?_, fun cut hcut => ?_⟩
  · constructor
    case cut => exact h
    case output_eq => exact h.serve_eq settings
    case lines_eq =>
      rw [h.serve_eq]
      refine lines_ended fun l hl => ?_
      obtain ⟨r, -, rfl⟩ := List.mem_map.1 hl
      exact (plain_response settings r).newline_not_mem
    case plain => exact fun r _ => plain_response settings r
    case append => exact serve_append settings
    case between =>
      intro hend line after hline
      have hline' : ∀ c ∈ (line ++ ['\n']).getLast?, c = '\n' := by simp
      rw [serve_append settings hend, ← List.singleton_append, ← List.append_assoc, serve_append settings hline',
        serve_line settings hline]
  · obtain ⟨hls, hrest⟩ := hcut.cut.unique h
    exact Prod.ext hls hrest

/-- A blank line is no request, and the last line needs no newline. -/
example : requests (lines "garbage\n \t\n [] ".toList) = ["garbage".toList, "[]".toList] := by decide

end Service
end Heightfield
