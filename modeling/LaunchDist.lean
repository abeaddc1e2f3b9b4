import LaunchDist.Main
import LaunchDist.Proofs.Artifact.Canonical
import LaunchDist.Proofs.Artifact.Lists
import LaunchDist.Proofs.Command.Agreement
import LaunchDist.Proofs.Distribution.Relocation
import LaunchDist.Proofs.Distribution.Shared
import LaunchDist.Proofs.Distribution.Spared
import LaunchDist.Proofs.Launcher.Finding
import LaunchDist.Proofs.Manifest.Classpath
import LaunchDist.Proofs.Manifest.Damage
import LaunchDist.Proofs.Manifest.Lines
import LaunchDist.Proofs.Packaging.Again
import LaunchDist.Proofs.Packaging.Defaults
import LaunchDist.Proofs.Packaging.Independence
import LaunchDist.Proofs.Packaging.Intact
import LaunchDist.Proofs.ProgramName
