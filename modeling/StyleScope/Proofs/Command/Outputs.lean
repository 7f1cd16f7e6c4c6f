import StyleScope.Command.Run
import StyleScope.Proofs.Files.Writing

/-! # Outputs in a directory

An output is written under the file name of its source, whatever directory the source is in. Writing
one output is seen in the file of that name only (`Tree.read_of_write`), so after a run without
failure the file of each name holds the last output of that name (`read_writeFiles`). All outputs are
kept just when no two of one name differ (`writeOutputs_keeps_iff`); that the sources differ is not
enough.
-/
namespace StyleScope.Command
open Files

def Output.fileName (o : Output) : Text := (o.source.bind Path.fileName?).getD "stdin.css".toList

theorem target_eq (dir : Text) (o : Output) : target dir o = Path.join dir o.fileName := rfl

theorem Output.isName_fileName (o : Output) : Path.IsName o.fileName := by
  rw [Output.fileName]
  cases h : o.source.bind Path.fileName? with
  | none => exact ⟨by decide, by decide⟩
  | some n =>
      obtain ⟨path, _, hn⟩ := Option.bind_eq_some_iff.1 h
      exact Path.isName_of_fileName? hn

/-- The output that is written last under a name. -/
def lastNamed (n : Text) (outputs : List Output) : Option Output :=
  outputs.findRev? fun o => o.fileName = n

theorem lastNamed_cons (n : Text) (o : Output) (rest : List Output) :
    lastNamed n (o :: rest) =
      (lastNamed n rest).or (if o.fileName = n then some o else none) := by
  rw [lastNamed, List.findRev?, ← lastNamed]
  cases lastNamed n rest with
  | none => simp
  | some last => rfl

theorem lastNamed_mem {n : Text} {outputs : List Output} {last : Output}
    (h : lastNamed n outputs = some last) : last ∈ outputs ∧ last.fileName = n := by
  induction outputs with
  | nil => exact absurd h (by simp [lastNamed, List.findRev?])
  | cons o rest ih =>
      rw [lastNamed_cons, Option.or_eq_some_iff] at h
      rcases h with h | ⟨_, h⟩
      · obtain ⟨hmem, hname⟩ := ih h
        exact ⟨List.mem_cons_of_mem _ hmem, hname⟩
      · split at h
        · next hname =>
          obtain rfl := Option.some.inj h
          exact ⟨List.mem_cons_self, hname⟩
        · exact absurd h (by simp)

theorem exists_lastNamed {outputs : List Output} {o : Output} (h : o ∈ outputs) :
    ∃ last, lastNamed o.fileName outputs = some last := by
  induction outputs with
  | nil => exact absurd h List.not_mem_nil
  | cons first rest ih =>
      rw [lastNamed_cons]
      rcases List.mem_cons.1 h with h | h
      · rw [if_pos (by rw [h])]
        cases lastNamed o.fileName rest with
        | none => exact ⟨first, rfl⟩
        | some last => exact ⟨last, rfl⟩
      · obtain ⟨last, hlast⟩ := ih h
        exact ⟨last, by rw [hlast, Option.some_or]⟩

/-- After all outputs were written, a file holds the last one of its name, or what it held before
if there is none. -/
theorem read_writeFiles {dir n : Text} {t : Tree} {outputs : List Output} (hn : Path.IsName n)
    (h : (writeFiles dir t outputs).failure = none) :
    (writeFiles dir t outputs).tree.read (Path.join dir n) =
      match lastNamed n outputs with
      | some last => .ok last.css
      | none => t.read (Path.join dir n) := by
  induction outputs generalizing t with
  | nil => rfl
  | cons o rest ih =>
      rw [writeFiles] at h ⊢
      cases hw : t.write (target dir o) o.css with
      | error e =>
          rw [hw] at h
          exact absurd h (by simp)
      | ok t' =>
          rw [hw] at h
          have hread := Tree.read_of_write o.isName_fileName hn hw
          show (writeFiles dir t' rest).tree.read (Path.join dir n) = _
          rw [ih h, lastNamed_cons]
          -- The first output counts only where no later one has its name.
          cases lastNamed n rest with
          | some last => rfl
          | none =>
              show t'.read (Path.join dir n) = _
              rw [hread]
              by_cases hname : o.fileName = n
              · rw [if_pos hname, if_pos hname.symm]
                rfl
              · rw [if_neg hname, if_neg (Ne.symm hname)]
                rfl

/-- Writing to a directory ends well if the directory can be made and the outputs written to it. -/
theorem writeOutputs_eq_writeFiles {t : Tree} {dir : Text} {outputs : List Output}
    (h : (writeOutputs t (some dir) outputs).failure = none) :
    writeOutputs t (some dir) outputs = writeFiles dir (t.createDirectory dir).tree outputs := by
  rw [writeOutputs] at h ⊢
  cases hmade : (t.createDirectory dir).failure with
  | none => simp only
  | some e =>
      simp only [hmade] at h
      exact absurd h (by simp)

/-- If writing to a directory ends well, the file of each output holds the css of the last output of
its name, so every output is kept just when outputs of one name have the same css. -/
theorem writeOutputs_keeps_iff {t : Tree} {dir : Text} {outputs : List Output}
    (h : (writeOutputs t (some dir) outputs).failure = none) :
    (∀ o ∈ outputs, ∃ last ∈ outputs, lastNamed o.fileName outputs = some last ∧
      (writeOutputs t (some dir) outputs).tree.read (target dir o) = .ok last.css) ∧
    ((∀ o ∈ outputs,
        (writeOutputs t (some dir) outputs).tree.read (target dir o) = .ok o.css) ↔
      ∀ o ∈ outputs, ∀ o' ∈ outputs, o.fileName = o'.fileName → o.css = o'.css) := by
  have hfiles := writeOutputs_eq_writeFiles h
  have hread : ∀ o ∈ outputs, ∃ last ∈ outputs, lastNamed o.fileName outputs = some last ∧
      (writeOutputs t (some dir) outputs).tree.read (target dir o) = .ok last.css := by
    intro o ho
    obtain ⟨last, hlast⟩ := exists_lastNamed ho
    refine ⟨last, (lastNamed_mem hlast).1, hlast, ?_⟩
    rw [hfiles] at h ⊢
    rw [target_eq, read_writeFiles o.isName_fileName h, hlast]
  refine ⟨hread, ?_⟩
  constructor
  · intro hkept o ho o' ho' hname
    have hsame : Except.ok o.css = (Except.ok o'.css : Except FileError Text) := by
      rw [← hkept o ho, ← hkept o' ho', target_eq, target_eq, hname]
    exact Except.ok.inj hsame
  · intro hagree o ho
    obtain ⟨last, hmem, hlast, heq⟩ := hread o ho
    rw [heq, hagree last hmem o ho (lastNamed_mem hlast).2]

theorem writeOutputs_keeps_two :
    let outputs : List Output :=
      [⟨some "a/x.css".toList, ".a[s]\x7b\x7d".toList⟩, ⟨some "a/y.css".toList, ".b[s]\x7b\x7d".toList⟩]
    (writeOutputs {} (some "out".toList) outputs).failure = none ∧
      ∀ o ∈ outputs,
        (writeOutputs {} (some "out".toList) outputs).tree.read (target "out".toList o) = .ok o.css :=
  ⟨rfl, (writeOutputs_keeps_iff rfl).2.2 (by decide)⟩

/-- Two sources of one file name: the output of the first is lost, and nothing fails. -/
theorem writeOutputs_loses_first :
    let first : Output := ⟨some "a/x.css".toList, ".a[s]\x7b\x7d".toList⟩
    let second : Output := ⟨some "b/x.css".toList, ".b[s]\x7b\x7d".toList⟩
    let effect := writeOutputs {} (some "out".toList) [first, second]
    first.source ≠ second.source ∧ effect.failure = none ∧
      effect.tree.read (target "out".toList first) = .ok second.css ∧
      effect.tree.read (target "out".toList first) ≠ .ok first.css := by
  refine ⟨by decide, rfl, rfl, ?_⟩
  intro h
  exact absurd (Except.ok.inj h) (by decide)

end StyleScope.Command
