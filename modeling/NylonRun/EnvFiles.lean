import NylonRun.Lib.Trimming
import NylonRun.Manifest

/-!
# The values of an env file

A line `KEY=V` of an env file binds the key to the value without the spaces around it and without
the quotes around that (src/main.rs:25-45, src/server.rs:453-473). The quotes are taken off with
two `trim_matches`, first every `"` at either end and then every `'`, so that more than one pair
goes, and a quote that no other one matches.
-/

namespace Server

/-- `str::trim`. -/
abbrev trim : String → String := Text.trimBoth Text.isWhitespace

/-- The line is `KEY=V`, and is no comment. -/
structure Assigns (line key v : String) : Prop where
  line_eq : line = key ++ String.singleton '=' ++ v
  key : '=' ∉ key.toList
  noComment : Text.startsWith (trim line) "#" = false

/-- A text without the one pair of quotes around it, if there is one. -/
def unquoted (s : String) : String :=
  match s.toList with
  | c :: rest =>
    if (c = '"' ∨ c = '\'') ∧ rest.getLast? = some c then String.ofList rest.dropLast else s
  | [] => s

/-- The text is enclosed in a pair of the quote. -/
def EnclosedIn (q : Char) (s : String) : Prop :=
  ∃ inner, s = String.singleton q ++ inner ++ String.singleton q

/-- The condition on a value: what is left of it without its pair of quotes, if it has one, neither
starts nor ends with a quote. Between a pair of `'`, it may do so with `"`. -/
def PlainlyQuoted (s : String) : Prop :=
  Text.Trimmed (· == '\'') (unquoted s) ∧
    (¬EnclosedIn '\'' s → Text.Trimmed (· == '"') (unquoted s))

variable {line key v s : String} {q : Char}

theorem toList_enclosed (q : Char) (inner : String) :
    (String.singleton q ++ inner ++ String.singleton q).toList = q :: (inner.toList ++ [q]) := by
  simp only [String.toList_append, String.toList_singleton, List.cons_append, List.nil_append]

theorem unquoted_enclosed (hq : q = '"' ∨ q = '\'') (inner : String) :
    unquoted (String.singleton q ++ inner ++ String.singleton q) = inner := by
  have hlast : (inner.toList ++ [q]).getLast? = some q := List.getLast?_concat
  rw [unquoted, toList_enclosed]
  dsimp only
  rw [if_pos ⟨hq, hlast⟩, List.dropLast_concat, String.ofList_toList]

/-- A text is enclosed in a pair of quotes, or it is itself what it is without. -/
theorem unquoted_cases (s : String) :
    (∃ q, (q = '"' ∨ q = '\'') ∧ EnclosedIn q s) ∨ (¬EnclosedIn '\'' s ∧ unquoted s = s) := by
  cases hs : s.toList with
  | nil =>
    refine .inr ⟨?_, by rw [unquoted, hs]⟩
    rintro ⟨inner, rfl⟩
    rw [toList_enclosed] at hs
    exact nomatch hs
  | cons c rest =>
    by_cases hcond : (c = '"' ∨ c = '\'') ∧ rest.getLast? = some c
    · refine .inl ⟨c, hcond.1, String.ofList rest.dropLast, ?_⟩
      have hrest : rest = rest.dropLast ++ [c] :=
        (List.dropLast_append_getLast? c hcond.2).symm
      rw [← String.toList_inj, toList_enclosed, String.toList_ofList, ← hrest, hs]
    · refine .inr ⟨?_, ?_⟩
      · rintro ⟨inner, rfl⟩
        rw [toList_enclosed] at hs
        obtain ⟨rfl, rfl⟩ := List.cons.inj hs
        exact hcond ⟨.inr rfl, List.getLast?_concat⟩
      · rw [unquoted, hs]
        dsimp only
        rw [if_neg hcond]

/-- Taking off first every `"` and then every `'` takes off one pair of quotes exactly if the
value is plainly quoted. -/
theorem trim_quotes_iff (s : String) :
    Text.trimBoth (· == '\'') (Text.trimBoth (· == '"') s) = unquoted s ↔ PlainlyQuoted s := by
  rcases unquoted_cases s with ⟨q, rfl | rfl, inner, rfl⟩ | ⟨hnot, hsame⟩
  · have hnot : ¬EnclosedIn '\'' (String.singleton '"' ++ inner ++ String.singleton '"') := by
      rintro ⟨other, heq⟩
      rw [← String.toList_inj, toList_enclosed, toList_enclosed] at heq
      exact absurd (List.cons.inj heq).1 (by decide)
    rw [PlainlyQuoted, unquoted_enclosed (.inl rfl), Text.trimBoth_enclosed (by rfl),
      Text.trimBoth_trimBoth_eq_self_iff, and_comm]
    exact and_congr_right fun _ => (imp_iff_right hnot).symm
  · have hkeeps : Text.trimBoth (· == '"') (String.singleton '\'' ++ inner ++ String.singleton '\'') =
        String.singleton '\'' ++ inner ++ String.singleton '\'' := by
      rw [Text.trimBoth_eq_self_iff, Text.Trimmed, toList_enclosed]
      refine ⟨?_, ?_⟩
      · rintro c ⟨⟩
        rfl
      · rw [← List.cons_append, List.getLast?_concat]
        rintro c ⟨⟩
        rfl
    rw [PlainlyQuoted, unquoted_enclosed (.inr rfl), hkeeps, Text.trimBoth_enclosed (by rfl),
      Text.trimBoth_eq_self_iff]
    refine (and_iff_left fun hnot => ?_).symm
    exact absurd ⟨inner, rfl⟩ hnot
  · rw [PlainlyQuoted, hsame, Text.trimBoth_trimBoth_eq_self_iff, and_comm]
    exact and_congr_right fun _ => (imp_iff_right hnot).symm

/-- What an assignment binds. -/
theorem envBinding_of_assigns (h : Assigns line key v) : envBinding line =
    some (trim key, Text.trimBoth (· == '\'') (Text.trimBoth (· == '"') (trim v))) := by
  have htrim : Text.trimBoth Text.isWhitespace line =
      Text.trimStart Text.isWhitespace key ++ String.singleton '=' ++
        String.ofList (v.toList.rdropWhile Text.isWhitespace) := by
    rw [h.line_eq]
    exact Text.trimBoth_append_stop (by decide) key v
  have hkey : '=' ∉ (Text.trimStart Text.isWhitespace key).toList := by
    rw [Text.trimStart, String.toList_ofList]
    exact fun hmem => h.key ((List.dropWhile_sublist _).subset hmem)
  have hcond : ¬(trim line = "" ∨ Text.startsWith (trim line) "#" = true) := by
    rintro (hempty | hcomment)
    · have hlists := congrArg String.toList (htrim.symm.trans hempty)
      simp at hlists
    · rw [h.noComment] at hcomment
      cases hcomment
  unfold envBinding
  dsimp only
  rw [if_neg hcond, htrim, Text.splitOnce_append hkey, Option.map_some]
  dsimp only
  rw [Text.trimBoth_trimStart, Text.trimBoth_rdropWhile]

/-- Every line that binds something is an assignment. -/
theorem assigns_of_envBinding {b : String × String} (h : envBinding line = some b) :
    ∃ key v, Assigns line key v ∧ b.1 = trim key := by
  have hline : ∃ key v, Assigns line key v := by
    unfold envBinding at h
    dsimp only at h
    split at h
    · exact nomatch h
    · rename_i hcond
      rw [not_or] at hcond
      obtain ⟨parts, hparts, -⟩ := Option.map_eq_some_iff.1 h
      have hmem := Text.mem_of_mem_trimBoth (Text.mem_of_splitOnce hparts)
      obtain ⟨front, back, hsplit, hfront⟩ := List.eq_append_cons_of_mem hmem
      refine ⟨String.ofList front, String.ofList back, ?_, ?_, ?_⟩
      · rw [← String.toList_inj, hsplit]
        simp
      · rwa [String.toList_ofList]
      · exact Bool.eq_false_iff.2 hcond.2
  obtain ⟨key, v, hassigns⟩ := hline
  rw [envBinding_of_assigns hassigns] at h
  cases h
  exact ⟨key, v, hassigns, rfl⟩

/-- A line `KEY=V` of an env file that no later one overrides binds the trimmed key to the trimmed
value without the one pair of quotes around it, if there is one, exactly if what that leaves
neither starts nor ends with a quote that is trimmed as well. -/
theorem parseEnvFileStr_binds_iff {t : FileTree} {path content : String}
    {before after : List String} (hread : t.readToString path = .ok content)
    (hlines : Text.lines content = before ++ line :: after) (hline : Assigns line key v)
    (hlast : ∀ later ∈ after, ∀ k w, Assigns later k w → trim k ≠ trim key) :
    ∃ vars, parseEnvFileStr t path = .ok vars ∧ Manifest.parseEnvFile t path = .ok vars ∧
      (vars.lookup (trim key) = some (unquoted (trim v)) ↔ PlainlyQuoted (trim v)) := by
  have hparse : parseEnvFileStr t path = .ok (((before ++ line :: after).filterMap envBinding).foldl
      (fun vars b => vars.insert b.1 b.2) ∅) := by
    unfold parseEnvFileStr
    rw [hread, ← hlines]
    rfl
  refine ⟨_, hparse, hparse, ?_⟩
  have hafter : trim key ∉ (after.filterMap envBinding).map (·.1) := by
    intro hmem
    obtain ⟨b, hb, hkey⟩ := List.mem_map.1 hmem
    obtain ⟨later, hlater, hbinds⟩ := List.mem_filterMap.1 hb
    obtain ⟨k, w, hassigns, hk⟩ := assigns_of_envBinding hbinds
    exact hlast later hlater k w hassigns (hk.symm.trans hkey)
  rw [List.filterMap_append, List.filterMap_cons_some (envBinding_of_assigns hline),
    List.foldl_append, List.foldl_cons, Dict.lookup_foldl_insert_of_notMem _ _ _ hafter,
    Dict.lookup_insert_eq, if_pos rfl, Option.some_inj]
  exact trim_quotes_iff (trim v)

/-- The disk with an env file of the content. -/
def envDisk (content : String) : FileTree :=
  Effect.final (FileTree.write "/web.env" content.toUTF8.toList) .empty

/-- Between a pair of `'`, a `"` at the end of the value stays. -/
theorem parseEnvFileStr_binds_say :
    ∃ vars, parseEnvFileStr (envDisk "CMD='say \"hi\"'\nMODE=live\n") "/web.env" = .ok vars ∧
      Manifest.parseEnvFile (envDisk "CMD='say \"hi\"'\nMODE=live\n") "/web.env" = .ok vars ∧
      vars.lookup "CMD" = some "say \"hi\"" := by
  have hread : (envDisk "CMD='say \"hi\"'\nMODE=live\n").readToString "/web.env" =
      .ok "CMD='say \"hi\"'\nMODE=live\n" := by decide +kernel
  have hlines : Text.lines "CMD='say \"hi\"'\nMODE=live\n" =
      [] ++ "CMD='say \"hi\"'" :: ["MODE=live"] := by decide
  have hline : Assigns "CMD='say \"hi\"'" "CMD" "'say \"hi\"'" :=
    ⟨by decide, by decide, by decide⟩
  have hlast : ∀ later ∈ ["MODE=live"], ∀ k w, Assigns later k w → trim k ≠ trim "CMD" := by
    intro later hlater k w hassigns hkey
    rw [List.mem_singleton.1 hlater] at hassigns
    have hmode : envBinding "MODE=live" = some ("MODE", "live") := by decide
    have hbinds := Option.some.inj ((envBinding_of_assigns hassigns).symm.trans hmode)
    have hcmd := hkey.symm.trans (congrArg Prod.fst hbinds)
    exact absurd hcmd (by decide)
  obtain ⟨vars, hserver, hmain, hiff⟩ := parseEnvFileStr_binds_iff hread hlines hline hlast
  have hplain : PlainlyQuoted (trim "'say \"hi\"'") := by
    refine ⟨Text.trimBoth_eq_self_iff.1 (by decide), fun hnot => ?_⟩
    exact absurd ⟨"say \"hi\"", by decide⟩ hnot
  exact ⟨vars, hserver, hmain, hiff.2 hplain⟩

/-- A command in a pair of `"` that ends with a quote of the other kind loses that. -/
theorem parseEnvFileStr_command :
    Assigns "CMD=\"sh -c 'run'\"" "CMD" "\"sh -c 'run'\"" ∧
      (envDisk "CMD=\"sh -c 'run'\"\n").readToString "/web.env" =
        .ok "CMD=\"sh -c 'run'\"\n" ∧
      Text.lines "CMD=\"sh -c 'run'\"\n" = ["CMD=\"sh -c 'run'\""] ∧
      (parseEnvFileStr (envDisk "CMD=\"sh -c 'run'\"\n") "/web.env").toOption.bind
        (·.lookup "CMD") = some "sh -c 'run" ∧
      unquoted (trim "\"sh -c 'run'\"") = "sh -c 'run'" := by
  refine ⟨⟨by decide, by decide, by decide⟩, by decide +kernel, by decide, by decide +kernel,
    by decide⟩

end Server
