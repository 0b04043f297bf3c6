import ConcurrencyAnalyzer.CompileCommand.Builder

namespace ConcurrencyAnalyzer.CompileCommand

open Library.OptionStream

def takesOutput (arg : Arg) : Bool := arg.text = "-o"

theorem startsWith_iff (start text : String) :
    startsWith start text = true ↔ start.toList <+: text.toList := by
  rw [startsWith, List.isPrefixOf_iff_prefix]

theorem names_iff (text : String) :
    (decide (text = "-o") || namesOutput text) = startsWith "-o" text := by
  rw [Bool.eq_iff_iff, Bool.or_eq_true, namesOutput, Bool.or_eq_true, Bool.and_eq_true,
    decide_eq_true_eq, decide_eq_true_eq, startsWith_iff, startsWith_iff]
  constructor
  · rintro (rfl | hlong | hlong)
    · exact List.prefix_refl _
    · exact List.IsPrefix.trans (by decide) hlong
    · exact hlong.2
  · rintro ⟨rest, hrest⟩
    cases rest with
    | nil =>
        left
        rw [← String.toList_inj, ← hrest]
        rfl
    | cons character rest =>
        refine Or.inr (Or.inr ⟨?_, character :: rest, hrest⟩)
        rw [← String.length_toList, ← hrest]
        simp

theorem turns_of_handsOn {arg : Arg} (h : handsOn arg = true) :
    turnsWarningsIntoErrors arg.text = false := by
  rw [handsOn, decide_eq_true_eq] at h
  rw [h]
  decide

theorem not_output_of_handsOn {arg : Arg} (h : handsOn arg = true) :
    startsWith "-o" arg.text = false := by
  rw [handsOn, decide_eq_true_eq] at h
  rw [h]
  decide

theorem removeWarningsAsErrors_cons {arg : Arg} (h : handsOn arg = false) (rest : List Arg) :
    removeWarningsAsErrors (arg :: rest) =
      (if turnsWarningsIntoErrors arg.text then [] else [arg]) ++ removeWarningsAsErrors rest := by
  cases rest with
  | nil => simp [removeWarningsAsErrors]
  | cons next rest =>
      by_cases hturns : turnsWarningsIntoErrors arg.text <;>
        simp [removeWarningsAsErrors, h, hturns]

theorem removeWarningsAsErrors_pair {arg : Arg} (h : handsOn arg = true) (next : Arg)
    (rest : List Arg) :
    removeWarningsAsErrors (arg :: next :: rest) =
      (if turnsWarningsIntoErrors next.text then [] else [arg, next]) ++
        removeWarningsAsErrors rest := by
  by_cases hturns : turnsWarningsIntoErrors next.text <;>
    simp [removeWarningsAsErrors, h, hturns]

theorem removeWarningsAsErrors_append_singleton {arg : Arg}
    (h : turnsWarningsIntoErrors arg.text = false) (args : List Arg) :
    removeWarningsAsErrors (args ++ [arg]) = removeWarningsAsErrors args ++ [arg] := by
  have hone : removeWarningsAsErrors [arg] = [arg] := by simp [removeWarningsAsErrors, h]
  fun_induction removeWarningsAsErrors args with
  | case1 => exact hone
  | case2 first hturns =>
      have hhands : handsOn first = false := by
        by_contra hhands
        simp [turns_of_handsOn (eq_true_of_ne_false hhands)] at hturns
      rw [List.singleton_append, removeWarningsAsErrors_cons hhands, if_pos hturns, hone]
  | case3 first hturns =>
      by_cases hhands : handsOn first = true
      · rw [List.singleton_append, removeWarningsAsErrors_pair hhands, if_neg (by simp [h])]
        rfl
      · rw [List.singleton_append, removeWarningsAsErrors_cons (eq_false_of_ne_true hhands),
          if_neg hturns, hone]
        rfl
  | case4 first next rest hhands hturns ih =>
      rw [List.cons_append, List.cons_append, removeWarningsAsErrors_pair hhands, if_pos hturns, ih]
      rfl
  | case5 first next rest hhands hturns ih =>
      rw [List.cons_append, List.cons_append, removeWarningsAsErrors_pair hhands, if_neg hturns, ih]
      rfl
  | case6 first next rest hhands hturns ih =>
      rw [List.cons_append, removeWarningsAsErrors_cons (eq_false_of_ne_true hhands),
        if_pos hturns, ih, List.nil_append]
  | case7 first next rest hhands hturns ih =>
      rw [List.cons_append, removeWarningsAsErrors_cons (eq_false_of_ne_true hhands),
        if_neg hturns, ih]
      rfl

theorem removeWarningsAsErrors_sublist (args : List Arg) :
    (removeWarningsAsErrors args).Sublist args := by
  fun_induction removeWarningsAsErrors args with
  | case1 => exact List.Sublist.refl _
  | case2 first hturns => exact List.nil_sublist _
  | case3 first hturns => exact List.Sublist.refl _
  | case4 first next rest hhands hturns ih => exact (ih.cons _).cons _
  | case5 first next rest hhands hturns ih => exact (ih.cons_cons _).cons_cons _
  | case6 first next rest hhands hturns ih => exact ih.cons _
  | case7 first next rest hhands hturns ih => exact ih.cons_cons _

-- The pair of an `-Xclang` stays, unless its value would make errors of warnings.
theorem pair_infix_removeWarningsAsErrors {args : List Arg} {option value : Arg}
    (hpair : (option, value) ∈ pairs handsOn args)
    (hturns : turnsWarningsIntoErrors value.text = false) :
    [option, value] <:+: removeWarningsAsErrors args := by
  fun_induction pairs handsOn args with
  | case1 token next rest hhands ih =>
      rw [removeWarningsAsErrors_pair hhands]
      rcases List.mem_cons.mp hpair with heq | hpair
      · obtain ⟨rfl, rfl⟩ := Prod.mk.injEq .. ▸ heq
        rw [if_neg (by simp [hturns])]
        exact (List.prefix_append _ _).isInfix
      · exact (ih hpair).trans (List.suffix_append _ _).isInfix
  | case2 token next rest hhands ih =>
      rw [removeWarningsAsErrors_cons (eq_false_of_ne_true hhands)]
      exact (ih hpair).trans (List.suffix_append _ _).isInfix
  | case3 => simp at hpair

theorem pair_notMem_removeWarningsAsErrors {args : List Arg} (hnodup : args.Nodup)
    {option value : Arg} (hpair : (option, value) ∈ pairs handsOn args)
    (hturns : turnsWarningsIntoErrors value.text = true) :
    option ∉ removeWarningsAsErrors args ∧ value ∉ removeWarningsAsErrors args := by
  fun_induction pairs handsOn args with
  | case1 token next rest hhands ih =>
      obtain ⟨htoken, hnodup⟩ := List.nodup_cons.mp hnodup
      obtain ⟨hnext, hnodup⟩ := List.nodup_cons.mp hnodup
      have hsub := (removeWarningsAsErrors_sublist rest).subset
      rw [removeWarningsAsErrors_pair hhands]
      rcases List.mem_cons.mp hpair with heq | hpair
      · obtain ⟨rfl, rfl⟩ := Prod.mk.injEq .. ▸ heq
        rw [if_pos hturns, List.nil_append]
        exact ⟨fun h => htoken (List.mem_cons_of_mem _ (hsub h)), fun h => hnext (hsub h)⟩
      · obtain ⟨hoption, hvalue⟩ := ih hnodup hpair
        have hadjacent := (pairs_adjacent hpair).2.subset
        have hoptionIn : option ∈ rest := hadjacent (by simp)
        have hvalueIn : value ∈ rest := hadjacent (by simp)
        constructor
        · grind
        · grind
  | case2 token next rest hhands ih =>
      obtain ⟨htoken, hnodup⟩ := List.nodup_cons.mp hnodup
      obtain ⟨hoption, hvalue⟩ := ih hnodup hpair
      have hadjacent := (pairs_adjacent hpair).2.subset
      have hoptionIn : option ∈ next :: rest := hadjacent (by simp)
      have hvalueIn : value ∈ next :: rest := hadjacent (by simp)
      rw [removeWarningsAsErrors_cons (eq_false_of_ne_true hhands)]
      constructor
      · grind
      · grind
  | case3 => simp at hpair

theorem removeOutputPathArgs_cons {arg : Arg} (h : takesOutput arg = false) (rest : List Arg) :
    removeOutputPathArgs (arg :: rest) =
      (if startsWith "-o" arg.text then [] else [arg]) ++ removeOutputPathArgs rest := by
  have hnot : ¬arg.text = "-o" := by simpa [takesOutput] using h
  have hnames : namesOutput arg.text = startsWith "-o" arg.text := by
    rw [← names_iff, decide_eq_false hnot, Bool.false_or]
  cases rest with
  | nil => simp [removeOutputPathArgs, hnot, hnames]
  | cons next rest =>
      by_cases hstarts : startsWith "-o" arg.text <;>
        simp [removeOutputPathArgs, hnot, hnames, hstarts]

theorem removeOutputPathArgs_pair {arg : Arg} (h : takesOutput arg = true) (next : Arg)
    (rest : List Arg) :
    removeOutputPathArgs (arg :: next :: rest) = removeOutputPathArgs rest := by
  rw [removeOutputPathArgs, if_pos (by simpa [takesOutput] using h)]

theorem removeOutputPathArgs_append_singleton (args : List Arg) (arg : Arg) :
    removeOutputPathArgs (args ++ [arg]) = removeOutputPathArgs args ++
      if (awaiting takesOutput args).isSome || startsWith "-o" arg.text then [] else [arg] := by
  have hone : removeOutputPathArgs [arg] = if startsWith "-o" arg.text then [] else [arg] := by
    rw [removeOutputPathArgs, ← names_iff]
  induction args using List.twoStepInduction with
  | nil => simpa [removeOutputPathArgs] using hone
  | singleton first =>
      by_cases htakes : takesOutput first = true
      · rw [List.singleton_append, removeOutputPathArgs_pair htakes]
        have hdropped : removeOutputPathArgs [first] = [] := by
          rw [takesOutput] at htakes
          rw [removeOutputPathArgs, htakes]
          rfl
        rw [hdropped, awaiting_singleton htakes]
        rfl
      · have htakes := eq_false_of_ne_true htakes
        rw [List.singleton_append, removeOutputPathArgs_cons htakes, hone,
          removeOutputPathArgs_cons htakes, awaiting_cons_of_not htakes]
        simp [removeOutputPathArgs]
  | cons_cons first next rest ih ih' =>
      by_cases htakes : takesOutput first = true
      · rw [List.cons_append, List.cons_append, removeOutputPathArgs_pair htakes, ih,
          removeOutputPathArgs_pair htakes, awaiting_cons_cons htakes]
      · have htakes := eq_false_of_ne_true htakes
        rw [List.cons_append, removeOutputPathArgs_cons htakes, ih',
          removeOutputPathArgs_cons htakes, awaiting_cons_of_not htakes, List.append_assoc]

theorem removeOutputPathArgs_sublist (args : List Arg) :
    (removeOutputPathArgs args).Sublist args := by
  induction args using List.reverseRecOn with
  | nil => exact List.Sublist.refl _
  | append_singleton args arg ih =>
      rw [removeOutputPathArgs_append_singleton]
      split
      · exact ih.append (List.nil_sublist _)
      · exact ih.append (List.Sublist.refl _)

-- An argument is kept where no `-o` before it takes it and it is none of the output's itself.
theorem mem_removeOutputPathArgs_iff {args : List Arg} {arg : Arg} :
    arg ∈ removeOutputPathArgs args ↔
      ∃ front back, args = front ++ arg :: back ∧ awaiting takesOutput front = none ∧
        startsWith "-o" arg.text = false := by
  induction args using List.reverseRecOn with
  | nil => simp [removeOutputPathArgs]
  | append_singleton args last ih =>
      rw [removeOutputPathArgs_append_singleton, List.mem_append, ih]
      constructor
      · rintro (⟨front, back, rfl, hwaiting, hstarts⟩ | h)
        · exact ⟨front, back ++ [last], by simp, hwaiting, hstarts⟩
        · split_ifs at h with hdropped
          · simp at h
          · rw [List.mem_singleton] at h
            subst h
            rw [Bool.or_eq_true, not_or, Option.not_isSome_iff_eq_none] at hdropped
            exact ⟨args, [], rfl, hdropped.1, eq_false_of_ne_true hdropped.2⟩
      · rintro ⟨front, back, heq, hwaiting, hstarts⟩
        cases List.eq_nil_or_concat back with
        | inl hnil =>
            subst hnil
            obtain ⟨rfl, hlast⟩ := List.append_inj' heq rfl
            obtain rfl : last = arg := by simpa using hlast
            right
            simp [hwaiting, hstarts]
        | inr h =>
            obtain ⟨back, other, rfl⟩ := h
            left
            rw [List.concat_eq_append, ← List.cons_append, ← List.append_assoc] at heq
            exact ⟨front, back, (List.append_inj' heq rfl).1, hwaiting, hstarts⟩

end ConcurrencyAnalyzer.CompileCommand
