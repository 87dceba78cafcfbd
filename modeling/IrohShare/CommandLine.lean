import IrohShare.AbsolutePath
import IrohShare.TerminalConsent

/-!
# The command line

`parse_arguments`: from the arguments of the program to its command, or to the text of an
error, and what it prints on the way.

A directory is made absolute here and nowhere else, so that the rest of the program does
not depend on where the process is.  The text form of a ticket belongs to `iroh_tickets`.
-/
namespace IrohShare
open Transition

inductive Command
  | ui
  | send (filename : String) (endpointAddr : Option EndpointAddr)
  | receive (downloadDir : String)
  | help
  | version
  deriving DecidableEq, Repr

/-- What the program finds around it: the working directory, and what `decode_string` makes
of a text. -/
structure Shell where
  currentDir : Except String String
  decode : String → Except String EndpointAddr

namespace Command

/-- `print_usage`. -/
def usage : List String :=
  ["Usage:", "    cargo run -- send <FILE> [TICKET]", "    cargo run -- receive [DOWNLOAD_DIR]",
    "    cargo run -- help", "    cargo run -- version"]

/-- `parse_arguments`: the lines it prints, and its result. -/
def parseArguments (shell : Shell) : List String → List String × Except String Command
  | [] => ([], .ok .ui)
  | ["send", filename, ticketStr] =>
    ([], match shell.decode ticketStr with
      | .ok addr => .ok (.send filename (some addr))
      | .error e => .error s!"failed to parse ticket: {e}")
  | ["send", filename] => ([], .ok (.send filename none))
  | ["receive"] => ([], shell.currentDir.map .receive)
  | ["receive", downloadDir] => ([], (Path.absolute shell.currentDir downloadDir).map .receive)
  | ["help"] | ["-h"] | ["--help"] => (usage, .ok .help)
  | ["version"] | ["-V"] | ["--version"] => (["iroh-share v0.1.4"], .ok .version)
  | ["send"] => ([], .error "send requires <FILE> [TICKET]")
  | "send" :: _ :: _ :: _ => ([], .error "send accepts <FILE> [TICKET]")
  | "receive" :: _ :: _ => ([], .error "receive accepts [DOWNLOAD_DIR]")
  | arg :: _ => (usage, .error s!"unknown command {arg}")

/-- The arguments that say a command in full. -/
def arguments (ticket : EndpointAddr → String) : Command → List String
  | ui => []
  | send filename none => ["send", filename]
  | send filename (some addr) => ["send", filename, ticket addr]
  | receive downloadDir => ["receive", downloadDir]
  | help => ["help"]
  | version => ["version"]

variable {shell : Shell} {args : List String} {command : Command}

/-- The directory of a command is a full path. -/
theorem normal_of_parseArguments (hcurrent : ∀ dir, shell.currentDir = .ok dir → Path.Normal dir)
    {dir : String} (h : (parseArguments shell args).2 = .ok (.receive dir)) : Path.Normal dir := by
  have hmap : ∀ {result : Except String String}, result.map receive = .ok (receive dir) →
      result = .ok dir := by
    rintro (e | path) h <;> cases h
    rfl
  unfold parseArguments at h
  split at h
  case h_2 =>
    dsimp only at h
    split at h <;> cases h
  case h_4 => exact hcurrent dir (hmap h)
  case h_5 => exact Path.normal_absolute hcurrent (hmap h)
  all_goals cases h

/-- A command that is said in full is read as that command. -/
theorem parseArguments_arguments (ticket : EndpointAddr → String)
    (hnormal : ∀ dir, command = .receive dir → Path.Normal dir)
    (hticket : ∀ filename addr, command = .send filename (some addr) →
      shell.decode (ticket addr) = .ok addr) :
    (parseArguments shell (command.arguments ticket)).2 = .ok command := by
  cases command with
  | ui | help | version => rfl
  | send filename endpointAddr =>
    cases endpointAddr with
    | none => rfl
    | some addr =>
      simp only [arguments, parseArguments, hticket filename addr rfl]
  | receive dir =>
    simp only [arguments, parseArguments, (hnormal dir rfl).absolute_eq]
    rfl

/-- What a download into a full path saves has a full path, and lies in the directory. -/
theorem saved_in_full {host : Host} {dir : String} {offer : Offer} {s s' : Receiving}
    (hdir : Path.IsAbsolute dir) (hdownload : (download host dir offer).run s = .ok () s') :
    ∃ path content, s'.files = s.files ++ [(path, content)] ∧ Path.IsAbsolute path ∧
      Path.parent path = some (Path.parts dir) := by
  obtain ⟨name, hname, -, hfiles, -⟩ := download_ok hdownload
  exact ⟨_, _, hfiles, hdir.join name, Path.parent_join dir (Path.isComponent_of_fileName hname)⟩

/-- **A command can be said in full.**  What is read of any arguments can be put into
arguments that every process reads as the same command, wherever it runs.  So whatever
`receive` saves, in any run, lies in the one directory that was meant, by its full path. -/
theorem command_in_full (hcurrent : ∀ dir, shell.currentDir = .ok dir → Path.Normal dir)
    (hparse : (parseArguments shell args).2 = .ok command) {shell' : Shell}
    (ticket : EndpointAddr → String)
    (hticket : ∀ filename addr, command = .send filename (some addr) →
      shell'.decode (ticket addr) = .ok addr) :
    (parseArguments shell' (command.arguments ticket)).2 = .ok command ∧
    ∀ downloadDir, command = .receive downloadDir →
      ∀ l, (Terminal.logged downloadDir).Reachable l →
      ∀ h dir offer, .task (.download h dir offer) ∈ l.log →
      ∀ host s s', (download host dir offer).run s = .ok () s' →
        ∃ path content, s'.files = s.files ++ [(path, content)] ∧ Path.IsAbsolute path ∧
          Path.parent path = some (Path.parts downloadDir) := by
  have hnormal : ∀ dir, command = .receive dir → Path.Normal dir := by
    rintro dir rfl
    exact normal_of_parseArguments hcurrent hparse
  refine ⟨parseArguments_arguments ticket hnormal hticket, ?_⟩
  intro downloadDir hcommand l hl h dir offer hmem host s s' hdownload
  obtain ⟨post, pre, hlog⟩ := List.append_of_mem hmem
  obtain ⟨-, rfl, -⟩ := Terminal.before_download hl hlog
  exact saved_in_full (hnormal dir hcommand).isAbsolute hdownload

/-- A process in a home directory, and one that does not know where it is. -/
def atHome : Shell := ⟨.ok "/home/u", fun _ => .error "no ticket"⟩

def nowhere : Shell := ⟨.error "gone", fun _ => .error "no ticket"⟩

theorem command_in_full_relative :
    (parseArguments atHome ["receive", "./in//"]).2 = .ok (.receive "/home/u/in/") ∧
    (parseArguments nowhere ["receive", "/home/u/in/"]).2 = .ok (.receive "/home/u/in/") := by
  have hcurrent : ∀ dir, atHome.currentDir = .ok dir → Path.Normal dir := by
    rintro _ ⟨⟩
    have habsolute : Path.absolute (.error "gone") "/home/u" = .ok "/home/u" := rfl
    exact Path.normal_absolute (fun _ herror => by cases herror) habsolute
  have hparse : (parseArguments atHome ["receive", "./in//"]).2 = .ok (.receive "/home/u/in/") :=
    rfl
  obtain ⟨hfull, -⟩ := @command_in_full _ _ _ hcurrent hparse nowhere (fun _ => "") nofun
  exact ⟨hparse, hfull⟩

end Command
end IrohShare
