import Mastermind.Agent.ModConfig

open Effects Prog Utf8 Filepath
open Files (Err)

namespace Agent

-- A path lies below one of the directories of the configuration.
def InConfig (root p : Bytes) : Prop :=
  StrictlyBelow (join root (text "config")) p ∨ StrictlyBelow (join root (text "defaultconfigs")) p

variable {lower : Char → Char} {root rel : Bytes}

theorem isName_config : IsName (text "config") :=
  ⟨by decide, by decide, by decide, by decide⟩

theorem isName_defaultconfigs : IsName (text "defaultconfigs") :=
  ⟨by decide, by decide, by decide, by decide⟩

-- An editable path is a relative path into one of the directories.
theorem editable_cases (h : isEditableInstallConfig lower rel = true) :
    isAbs (clean rel) = false ∧ ¬up <:+: clean rel ∧
      (text "config" ++ [sep] <+: clean rel ∨ text "defaultconfigs" ++ [sep] <+: clean rel) := by
  have hc : text "config/" = text "config" ++ [sep] := by decide
  have hd : text "defaultconfigs/" = text "defaultconfigs" ++ [sep] := by decide
  unfold isEditableInstallConfig at h
  simp only [hc, hd] at h
  split at h
  case isTrue  => nomatch h
  case isFalse hs =>
    split at h
    case isTrue  => nomatch h
    case isFalse hp =>
      simp only [Bool.or_eq_true, decide_eq_true_eq, not_or, Bool.not_eq_true] at hs
      refine ⟨hs.left.right, hs.right, ?_⟩
      by_contra hn
      simp only [not_or] at hn
      exact hp (by simp [hn.left, hn.right])

theorem inConfig_join (hr : root ≠ []) (h : isEditableInstallConfig lower rel = true) :
    InConfig root (join root rel) := by
  have ⟨ha, hu, hp⟩ := editable_cases h
  cases hp
  case inl hp => exact .inl (strictlyBelow_join hr isName_config ha hu hp)
  case inr hp => exact .inr (strictlyBelow_join hr isName_defaultconfigs ha hu hp)

theorem clean_join {p q : Bytes} (hp : p ≠ []) : clean (join p q) = join p q := by
  rw [join, if_pos hp, clean_clean]

-- What is resolved lies below the directories, whatever the file system answers.
theorem returns_resolve (hr : root ≠ []) {allowMissing : Bool} :
    (resolveInstallConfigPath lower root rel allowMissing).Returns (InConfig root) := by
  unfold resolveInstallConfigPath
  rw [if_neg hr]
  by_cases he : isEditableInstallConfig lower (clean (trimBytes rel)) = true
  case neg => simp [he, Returns]
  case pos =>
    have hi : InConfig root (clean (join root (clean (trimBytes rel)))) := by
      rw [clean_join hr]
      exact inConfig_join hr he
    simp only [he, Bool.not_true, Bool.false_eq_true, if_false]
    split
    case isTrue  => trivial
    case isFalse =>
      intro r
      cases r
      case error e =>
        dsimp only
        split
        case isTrue  => exact hi
        case isFalse => trivial
      case ok info =>
        dsimp only
        split
        case isTrue  => trivial
        case isFalse =>
          split
          case isTrue  => trivial
          case isFalse => exact hi

-- The files that are created and written lie below the directories.
def CreatesInConfig (root : Bytes) : Os.Cmd → Prop
  | .openFile p => InConfig root p
  | .copy p _   => InConfig root p
  | _           => True

theorem only_extractConfig (hr : root ≠ []) {file : ZipFile} :
    (extractConfig lower root file).Only (CreatesInConfig root) := by
  unfold extractConfig
  split
  case h_1     => exact .pure
  case h_2 rel _ =>
    split
    case isTrue  => exact .pure
    case isFalse he =>
      have he : isEditableInstallConfig lower rel = true := by
        by_contra hn
        exact he (Bool.or_eq_true_iff.mpr (.inr (by simpa using hn)))
      refine .handle ?_ fun _ => .pure
      refine .bind (.perform trivial) fun _ => .bind (.perform trivial) fun _ =>
        .bind (.perform (inConfig_join hr he)) fun _ => .perform (inConfig_join hr he)

-- Every path that is accepted leads below the directories of the configuration, and so do the targets
-- that are resolved and the files that are extracted.
theorem config_inside (hr : root ≠ []) :
    (∀ rel, isEditableInstallConfig lower rel = true → InConfig root (join root rel)) ∧
    (∀ rel allowMissing fs s target,
      ((resolveInstallConfigPath lower root rel allowMissing).run fs s).result = .ok target →
        InConfig root target) ∧
    ∀ jarPath, (extractJarDefaultConfigs lower jarPath root).Only (CreatesInConfig root) := by
  refine ⟨fun rel => inConfig_join hr, fun rel allowMissing fs s target h => ?_, fun jarPath => ?_⟩
  case refine_1 => exact (returns_resolve hr).run h
  case refine_2 => exact .bind (.perform trivial) fun _ => .forEach fun _ => only_extractConfig hr

-- A path with detours.
theorem config_inside_detour :
    InConfig (text "/srv/../srv/mc/") (join (text "/srv/../srv/mc/") (text "./x/../config//a/b.toml")) :=
  (@config_inside Char.toLower _ (by decide)).left _ (by decide +kernel)

end Agent
