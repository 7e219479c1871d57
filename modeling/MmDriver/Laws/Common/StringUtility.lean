import MmDriver.Common.StringUtility

/-!
# Split and join

`SplitString` gives what `List.splitOn` gives, less an empty piece at the end. So joining undoes it,
up to a delimiter at the end of the text.
-/

namespace MmDriver

namespace StringUtility

variable {α : Type} [DecidableEq α]

/-! ## What is found -/

/-- Nothing is found in a text without the delimiter. -/
theorem findFirstOf_eq_none {s : List α} {split : α} (h : findFirstOf s split = none) :
    split ∉ s := by
  intro hmem
  have hall := List.findIdx?_eq_none_iff.mp h split hmem
  rw [beq_self_eq_true] at hall
  cases hall

/-- The first delimiter stands between what is cut off and what is left. -/
theorem findFirstOf_eq_some {s : List α} {split : α} {pos : Nat}
    (h : findFirstOf s split = some pos) :
    s = s.take pos ++ split :: s.drop (pos + 1) ∧ split ∉ s.take pos := by
  obtain ⟨hpos, hfound, hbefore⟩ := List.findIdx?_eq_some_iff_getElem.mp h
  have hsplit : s[pos] = split := beq_iff_eq.mp hfound
  refine ⟨?_, ?_⟩
  · rw [← hsplit, ← List.drop_eq_getElem_cons hpos, List.take_append_drop]
  · intro hmem
    obtain ⟨j, hj, hget⟩ := List.mem_iff_getElem.mp hmem
    rw [List.length_take] at hj
    rw [List.getElem_take] at hget
    exact hbefore j (Nat.lt_of_lt_of_le hj (Nat.min_le_left _ _)) (beq_iff_eq.mpr hget)

/-! ## The pieces -/

/-- The text ends where a piece would begin. -/
def AtStart (split : α) (s : List α) : Prop := s = [] ∨ s.getLast? = some split

instance (split : α) : DecidablePred (AtStart split) := fun s =>
  inferInstanceAs (Decidable (s = [] ∨ s.getLast? = some split))

/-- The pieces between the delimiters, less an empty one at the end. -/
def pieces (split : α) (s : List α) : List (List α) :=
  if AtStart split s then (s.splitOn split).dropLast else s.splitOn split

theorem pieces_of_not_mem {s : List α} {split : α} (h : split ∉ s) :
    pieces split s = if 0 < s.length then [s] else [] := by
  rw [pieces, List.splitOn_eq_singleton h]
  cases s with
  | nil => rfl
  | cons c rest =>
    have hnot : ¬AtStart split (c :: rest) := by
      rintro (hnil | hlast)
      · cases hnil
      · exact h (List.mem_of_getLast? hlast)
    rw [if_neg hnot, if_pos (List.length_pos_of_ne_nil (List.cons_ne_nil c rest))]

theorem pieces_append_cons {first : List α} {split : α} (h : split ∉ first) (rest : List α) :
    pieces split (first ++ split :: rest) = first :: pieces split rest := by
  have hiff : AtStart split (first ++ split :: rest) ↔ AtStart split rest := by
    have hne : first ++ split :: rest ≠ [] := List.append_ne_nil_of_right_ne_nil _ (List.cons_ne_nil _ _)
    rw [AtStart, AtStart, or_iff_right hne, List.getLast?_append, List.getLast?_cons]
    cases hrest : rest.getLast? with
    | none =>
      rw [List.getLast?_eq_none_iff.mp hrest]
      exact iff_of_true rfl (.inl rfl)
    | some c =>
      have hnil : rest ≠ [] := fun hnil => by rw [hnil] at hrest; cases hrest
      rw [or_iff_right hnil]
      rfl
  rw [pieces, pieces, List.splitOn_append_cons_self_of_not_mem h]
  by_cases hat : AtStart split rest
  · rw [if_pos (hiff.mpr hat), if_pos hat, List.dropLast_cons_of_ne_nil (List.splitOn_ne_nil _ _)]
  · rw [if_neg (mt hiff.mp hat), if_neg hat]

/-- What `SplitString` makes of its loop's end. -/
def collected (r : SplitState α) : List (List α) :=
  if r.kPos = none ∧ 0 < r.kFormatPath.length then r.kResult ++ [r.kFormatPath] else r.kResult

/-- The loop collects the pieces. -/
theorem collected_splitLoop (split : α) (s : List α) (kResult : List (List α)) :
    collected (splitLoop split s (findFirstOf s split) kResult) = kResult ++ pieces split s := by
  induction hn : s.length using Nat.strongRecOn generalizing s kResult with
  | ind n ih =>
    cases hfind : findFirstOf s split with
    | none =>
      rw [splitLoop, pieces_of_not_mem (findFirstOf_eq_none hfind), collected]
      by_cases hlength : 0 < s.length
      · rw [if_pos ⟨rfl, hlength⟩, if_pos hlength]
      · rw [if_neg fun h => hlength h.2, if_neg hlength, List.append_nil]
    | some pos =>
      obtain ⟨hcut, hfirst⟩ := findFirstOf_eq_some hfind
      have hlength : 0 < s.length := by
        rw [hcut, List.length_append, List.length_cons]
        exact Nat.add_pos_right _ (Nat.succ_pos _)
      have hshort : (s.drop (pos + 1)).length < n := by
        rw [List.length_drop, ← hn]
        exact Nat.sub_lt hlength (Nat.succ_pos pos)
      have hpieces : pieces split s = s.take pos :: pieces split (s.drop (pos + 1)) := by
        conv_lhs => rw [hcut]
        exact pieces_append_cons hfirst _
      rw [splitLoop, if_pos hlength, ih _ hshort _ _ rfl, hpieces, List.append_assoc,
        List.singleton_append]

theorem splitString_eq (s : List α) (split : α) : splitString s split = pieces split s :=
  collected_splitLoop split s []

/-! ## Joining -/

/-- The pieces with a delimiter between each two. -/
def join (split : α) (parts : List (List α)) : List α := [split].intercalate parts

/-- No piece of a split has the delimiter in it. -/
theorem not_mem_of_mem_splitOn {split : α} {s part : List α} (h : part ∈ s.splitOn split) :
    split ∉ part := by
  induction s generalizing part with
  | nil =>
    rw [List.splitOn_nil, List.mem_singleton] at h
    rw [h]
    exact List.not_mem_nil
  | cons c rest ih =>
    rw [List.splitOn_cons_eq_if_modifyHead] at h
    split at h
    · rcases List.mem_cons.mp h with rfl | hrest
      · exact List.not_mem_nil
      · exact ih hrest
    · next hc =>
      obtain ⟨first, others, hsplit⟩ := List.exists_cons_of_ne_nil (List.splitOn_ne_nil split rest)
      rw [hsplit, List.modifyHead_cons] at h
      rcases List.mem_cons.mp h with rfl | hothers
      · have hfirst := ih (hsplit ▸ List.mem_cons_self)
        intro hmem
        rcases List.mem_cons.mp hmem with rfl | hmem
        · exact hc (beq_self_eq_true _)
        · exact hfirst hmem
      · exact ih (hsplit ▸ List.mem_cons_of_mem first hothers)

theorem not_mem_of_mem_pieces {split : α} {s part : List α} (h : part ∈ pieces split s) :
    split ∉ part := by
  rw [pieces] at h
  split at h
  · exact not_mem_of_mem_splitOn ((List.dropLast_sublist _).subset h)
  · exact not_mem_of_mem_splitOn h

/-- Behind a delimiter at the end nothing is left. -/
theorem splitOn_concat (split : α) (s : List α) :
    (s ++ [split]).splitOn split = s.splitOn split ++ [[]] := by
  rw [List.splitOn_append_cons_self, List.splitOn_nil]

/-- Joining gives the text again, less a delimiter at its end. -/
theorem join_pieces (split : α) (s : List α) :
    s = join split (pieces split s) ++ if s.getLast? = some split then [split] else [] := by
  rcases List.eq_nil_or_concat s with rfl | ⟨rest, c, rfl⟩
  · rfl
  · rw [List.concat_eq_append, List.getLast?_concat]
    by_cases hc : c = split
    · subst hc
      rw [if_pos rfl, pieces, if_pos (.inr (List.getLast?_concat ..)), splitOn_concat,
        List.dropLast_concat, join, List.intercalate_splitOn]
    · have hnot : ¬AtStart split (rest ++ [c]) := by
        rintro (hnil | hlast)
        · exact List.append_ne_nil_of_right_ne_nil rest (List.cons_ne_nil c []) hnil
        · rw [List.getLast?_concat] at hlast
          exact hc (Option.some.inj hlast)
      rw [if_neg fun h => hc (Option.some.inj h), pieces, if_neg hnot, join,
        List.intercalate_splitOn, List.append_nil]

/-- Splitting gives the parts again, if the last one is not empty. -/
theorem pieces_join {split : α} {parts : List (List α)} (hparts : ∀ part ∈ parts, split ∉ part)
    {last : List α} (hlast : parts.getLast? = some last) (hne : last ≠ []) :
    pieces split (join split parts) = parts := by
  have hnonempty : parts ≠ [] := fun hnil => by rw [hnil] at hlast; cases hlast
  have hsplit : (join split parts).splitOn split = parts :=
    List.splitOn_intercalate split hparts hnonempty
  rw [pieces, hsplit]
  refine if_neg ?_
  intro hstart
  have hend : (join split parts).splitOn split = [[]] ∨
      ∃ s, (join split parts).splitOn split = s ++ [[]] := by
    rcases hstart with hnil | hdelimiter
    · rw [hnil]
      exact .inl (List.splitOn_nil split)
    · obtain ⟨s, hs⟩ := List.getLast?_eq_some_iff.mp hdelimiter
      rw [hs]
      exact .inr ⟨_, splitOn_concat split s⟩
  rw [hsplit] at hend
  rcases hend with hsingle | ⟨s, hs⟩
  · rw [hsingle] at hlast
    exact hne (Option.some.inj hlast).symm
  · rw [hs, List.getLast?_concat] at hlast
    exact hne (Option.some.inj hlast).symm

/-- Only the empty text has no pieces. -/
theorem eq_nil_of_pieces {split : α} {s : List α} (h : pieces split s = []) : s = [] := by
  rw [pieces] at h
  split at h
  · next hstart =>
    rcases hstart with hnil | hdelimiter
    · exact hnil
    · obtain ⟨rest, hrest⟩ := List.getLast?_eq_some_iff.mp hdelimiter
      rw [hrest, splitOn_concat, List.dropLast_concat] at h
      exact absurd h (List.splitOn_ne_nil split rest)
  · exact absurd h (List.splitOn_ne_nil split s)

/-- **Split and join.** The pieces have no delimiter in them, and joined they are the text, with one
more delimiter exactly when the text ends with it; the empty text has no pieces. Parts without a
delimiter, the last of which is not empty, are the pieces of their join. -/
theorem splitString_join (split : α) :
    (∀ s : List α,
      (∀ part ∈ splitString s split, split ∉ part) ∧
        (s = join split (splitString s split) ++ [split] ↔ s.getLast? = some split) ∧
        (s.getLast? ≠ some split → s = join split (splitString s split)) ∧
        (splitString s split = [] ↔ s = [])) ∧
      ∀ parts : List (List α), (∀ part ∈ parts, split ∉ part) →
        (∃ last, parts.getLast? = some last ∧ last ≠ []) →
        splitString (join split parts) split = parts := by
  refine ⟨?_, ?_⟩
  · intro s
    rw [splitString_eq]
    have hjoin := join_pieces split s
    refine ⟨fun part hpart => not_mem_of_mem_pieces hpart, ⟨?_, ?_⟩, ?_, ⟨?_, ?_⟩⟩
    · intro h
      rw [h, List.getLast?_concat]
    · intro h
      rwa [if_pos h] at hjoin
    · intro h
      rwa [if_neg h, List.append_nil] at hjoin
    · exact eq_nil_of_pieces
    · rintro rfl
      rfl
  · rintro parts hparts ⟨last, hlast, hne⟩
    rw [splitString_eq]
    exact pieces_join hparts hlast hne

/-- A path of three components, and a text that ends with its delimiter. -/
theorem splitString_join_path :
    splitString (join '.' [['a'], [], ['b', 'c']]) '.' = [['a'], [], ['b', 'c']] ∧
      ['a', '.'] = join '.' (splitString ['a', '.'] '.') ++ ['.'] :=
  ⟨(splitString_join '.').2 [['a'], [], ['b', 'c']] (by decide) ⟨['b', 'c'], rfl, by decide⟩,
    (((splitString_join '.').1 ['a', '.']).2.1).mpr rfl⟩

end StringUtility

end MmDriver
