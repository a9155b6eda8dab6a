import LiterateCheck.Main
import LiterateCheck.Proofs.Checker
import LiterateCheck.Proofs.CommandLine.Arguments
import LiterateCheck.Proofs.CommandLine.CheckerProgram
import LiterateCheck.Proofs.CommandLine.EarlyFailures
import LiterateCheck.Proofs.CommandLine.ExitCodes
import LiterateCheck.Proofs.CommandLine.Telling
import LiterateCheck.Proofs.Directive
import LiterateCheck.Proofs.Discovery.Cycles
import LiterateCheck.Proofs.Discovery.Documents
import LiterateCheck.Proofs.Discovery.Finishing
import LiterateCheck.Proofs.Discovery.Steering
import LiterateCheck.Proofs.Disk.Confining
import LiterateCheck.Proofs.Disk.Following
import LiterateCheck.Proofs.Disk.Growth
import LiterateCheck.Proofs.Disk.Hosting
import LiterateCheck.Proofs.Disk.Joining
import LiterateCheck.Proofs.Disk.Plain
import LiterateCheck.Proofs.Disk.Settling
import LiterateCheck.Proofs.Disk.Writing
import LiterateCheck.Proofs.Disposition
import LiterateCheck.Proofs.Document
import LiterateCheck.Proofs.Group
import LiterateCheck.Proofs.Markup.Collecting
import LiterateCheck.Proofs.Markup.Sections
import LiterateCheck.Proofs.Project.Confinement
import LiterateCheck.Proofs.Project.Contents
import LiterateCheck.Proofs.Project.Copying
import LiterateCheck.Proofs.Project.Places
import LiterateCheck.Proofs.Project.Reading
import LiterateCheck.Proofs.Project.Rediscovery
import LiterateCheck.Proofs.Project.Repeating
import LiterateCheck.Proofs.Project.Resolving
import LiterateCheck.Proofs.Project.Supplying
import LiterateCheck.Proofs.Project.Wrapping
import LiterateCheck.Proofs.Run.Ending
import LiterateCheck.Proofs.SourceMap.Diagnostics
import LiterateCheck.Proofs.SourceMap.Inside
import LiterateCheck.Proofs.SourceMap.Locating
import LiterateCheck.Proofs.SourceMap.Ranges
import LiterateCheck.Proofs.SourceMap.ReadBack
import LiterateCheck.Proofs.SourceMap.ReadLocator
import LiterateCheck.Proofs.Text.ByteOrder
import LiterateCheck.Proofs.Text.LineEndings
import LiterateCheck.Proofs.Text.RawNames
import LiterateCheck.Proofs.Watch
import LiterateCheck.Proofs.Watch.Events
