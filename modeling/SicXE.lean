import SicXE.Source.Probe
import SicXE.Reading.Session
import SicXE.Reading.Relisting
import SicXE.Main
import SicXE.Proofs.Relisting
import SicXE.Proofs.Locality
import SicXE.Proofs.PaddedLines
import SicXE.Proofs.CommandOutcomes
import SicXE.Proofs.NumberReading
import SicXE.Proofs.DataReading
import SicXE.Proofs.TrailedLines
import SicXE.Proofs.CarriageReturns
import SicXE.Proofs.AddressingReading
import SicXE.Proofs.Statements
import SicXE.Proofs.Formats
import SicXE.Proofs.RegisterLetters
import SicXE.Proofs.DataContexts
import SicXE.Proofs.CursorPositions
import SicXE.Proofs.Resuming
import SicXE.Proofs.HexLiterals
import SicXE.Proofs.WordBytes
