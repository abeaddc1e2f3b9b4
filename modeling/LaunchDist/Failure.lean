import LaunchDist.FileSystem.Failure
import LaunchDist.Json.Fault
import LaunchDist.Manifest.Basic
/-!
# Why packaging fails

Every failure is a cause with what it is about. The wording is in the `message` functions alone.
-/
namespace LaunchDist

/-- What is wrong with a request. -/
inductive ConfigurationProblem where
  | blankMainClass
  | emptyProgramName
  | blankEndedProgramName (name : String)
  | notPlainProgramName (name : String)
  | manifestProgramName (name : String)
  | directoryArtifact (path : Path)
  | unnamedArtifact (path : Path)
  | other (message : String)
  deriving DecidableEq, Repr

/-- What is wrong with a manifest that could be read. -/
inductive ManifestProblem where
  | notJava (programType : String)
  | noEntrypoint
  | unsupportedRelease (version : UInt32)
  | emptyClasspath
  | strayEntry (entry : String)
  | otherClasspath (manifest : Path) (found expected : List String)
  | other (message : String)
  deriving DecidableEq, Repr

/-- What is wrong with an assembled distribution. -/
inductive DistributionProblem where
  | missingDirectory (path : Path)
  | missingLibrary (entry : String)
  | noLauncher
  | severalLaunchers (names : List String)
  | other (message : String)
  deriving DecidableEq, Repr

inductive Failure where
  | configuration (problem : ConfigurationProblem)
  | launcherNotFound (launcher : String) (searched : List Path)
  | io (path : Path) (failure : FileFailure)
  | serialize (fault : Json.PlacedFault)
  | manifestParse (path : Path) (fault : Json.PlacedFault)
  | invalidManifest (problem : ManifestProblem)
  | invalidDistribution (root : Path) (problem : DistributionProblem)
  deriving DecidableEq, Repr

def commaSeparated (texts : List String) : String :=
  ", ".intercalate texts

def ConfigurationProblem.message : ConfigurationProblem → String
  | .blankMainClass => "the main class must be set to a fully qualified class name"
  | .emptyProgramName => "the program name must not be empty"
  | .blankEndedProgramName name =>
    "the program name '" ++ name ++ "' must not start or end with whitespace"
  | .notPlainProgramName name => "the program name '" ++ name ++ "' must be a plain file name"
  | .manifestProgramName name =>
    "the program name '" ++ name ++ "' collides with the manifest file name"
  | .directoryArtifact path =>
    "runtime artifact " ++ path.display ++ " is a directory, only files are supported"
  | .unnamedArtifact path => "runtime artifact " ++ path.display ++ " has no UTF-8 file name"
  | .other message => message

def ManifestProblem.message : ManifestProblem → String
  | .notJava programType =>
    "only Java programs are supported but 'program_type' was set to '" ++ programType ++ "'"
  | .noEntrypoint => "'entrypoint' is required"
  | .unsupportedRelease version =>
    "'java_version' must be one of [" ++
      commaSeparated (Manifest.supportedReleases.map toString) ++ "] but was " ++ toString version
  | .emptyClasspath => "'classpath' must contain at least one entry"
  | .strayEntry entry =>
    "classpath entry '" ++ entry ++ "' must name a file directly inside '../lib/'"
  | .otherClasspath manifest found expected =>
    "classpath in " ++ manifest.display ++ " is [" ++ commaSeparated found ++
      "] but the artifacts to assemble are [" ++ commaSeparated expected ++ "]"
  | .other message => message

def DistributionProblem.message : DistributionProblem → String
  | .missingDirectory path => "missing directory " ++ path.display
  | .missingLibrary entry => "classpath entry '" ++ entry ++ "' has no file in lib/"
  | .noLauncher => "bin/ has no launcher next to the manifest"
  | .severalLaunchers names =>
    "bin/ must hold only the launcher and the manifest, found: " ++ commaSeparated names
  | .other message => message

namespace Failure

def message : Failure → String
  | .configuration problem => "Invalid configuration: " ++ problem.message
  | .launcherNotFound launcher searched =>
    "Could not find the '" ++ launcher ++ "' executable on the search path (searched: " ++
      (if searched = [] then "<empty>" else commaSeparated (searched.map Path.display)) ++ ")"
  | .io path failure => "I/O error at " ++ path.display ++ ": " ++ failure.message
  | .serialize fault => "Failed to serialize manifest to JSON: " ++ fault.message
  | .manifestParse path fault =>
    "Failed to parse manifest JSON from " ++ path.display ++ ": " ++ fault.message
  | .invalidManifest problem => "Invalid manifest: " ++ problem.message
  | .invalidDistribution root problem =>
    "Invalid distribution at " ++ root.display ++ ": " ++ problem.message

/-- The message of what lies behind the failure, if anything does. -/
def source? : Failure → Option String
  | .io _ failure => some failure.message
  | .serialize fault | .manifestParse _ fault => some fault.message
  | _ => none

end Failure

end LaunchDist
